import LibBinlog.HandshakeFields
import LibBinlog.Sha1Stream

/-!
# The scramble with the digest of `sha1.c`

`cooksalt` runs the digest three times on one context. With the standard's digest it is the function
that the handshake was described with, so a server that keeps the twofold digest of the password
finds it again.
-/

namespace LibBinlog

open Memory Machine SecureHash

def sha1Digest (message : List UInt8) : Vector UInt8 20 :=
  ⟨(digest message).toArray, by rw [List.size_toArray, length_digest]⟩

theorem toList_sha1Digest (message : List UInt8) : (sha1Digest message).toList = digest message :=
  rfl

/-- Lengths are cut to 32 bits where `SHA1Update` takes them. -/
def Sha1.cooksalt (sha : Sha1Ctx) (salt : Mem) (slen : ℕ) (passwd : Mem) (plen : ℕ) :
    Except Fault (List UInt8) := do
  let sha ← sha1Update (sha1Init sha) passwd (UInt32.ofNat plen)
  let (hash1, sha) ← sha1Final sha
  let sha ← sha1Update (sha1Init sha) (ofBytes hash1) 20
  let (hash2, sha) ← sha1Final sha
  let sha ← sha1Update (sha1Init sha) salt (UInt32.ofNat slen)
  let sha ← sha1Update sha (ofBytes hash2) 20
  let (hash2, _sha) ← sha1Final sha
  .ok (List.zipWith (· ^^^ ·) hash1 hash2)

theorem sha1Init_digests (context : Sha1Ctx) (data : Mem) (len : UInt32) : ∃ context',
    sha1Update (sha1Init context) data len = .ok context' ∧
      Absorbed context' (slice data 0 len.toNat) := by
  have hlen := len.toNat_lt
  exact (absorbed_init context).update data len (by rw [List.length_nil]; omega)

/-- The scramble is the one of the standard's digest, for the bytes that 32 bits can count. -/
theorem cooksalt_eq (sha : Sha1Ctx) (salt : Mem) (slen : ℕ) (passwd : Mem) (plen : ℕ) :
    Sha1.cooksalt sha salt slen passwd plen = .ok (LibBinlog.cooksalt sha1Digest
      (slice salt 0 (slen % 2 ^ 32)) (slice passwd 0 (plen % 2 ^ 32))).toList := by
  have hplen : (UInt32.ofNat plen).toNat = plen % 2 ^ 32 := UInt32.toNat_ofNat'
  have hslen : (UInt32.ofNat slen).toNat = slen % 2 ^ 32 := UInt32.toNat_ofNat'
  let hash1 := digest (slice passwd 0 (plen % 2 ^ 32))
  have hslice (bytes : List UInt8) (h : bytes.length = 20) :
      slice (ofBytes bytes) 0 (20 : UInt32).toNat = bytes :=
    (holds_ofBytes bytes).slice_eq h.symm
  obtain ⟨fed, hpasswd, h₁⟩ := sha1Init_digests sha passwd (UInt32.ofNat plen)
  obtain ⟨refed, hagain, h₂⟩ := sha1Init_digests .wiped (ofBytes hash1) 20
  obtain ⟨salted, hsalt, h₃⟩ := sha1Init_digests .wiped salt (UInt32.ofNat slen)
  obtain ⟨both, hboth, h₄⟩ := h₃.updateBytes 20 (digest hash1) (length_digest _).symm
    (by rw [length_digest]; norm_num)
  rw [hplen] at h₁
  rw [hslice hash1 (length_digest _)] at h₂
  rw [hslen] at h₄
  rw [Sha1.cooksalt, ok_bind hpasswd, ok_bind h₁.final]
  dsimp only
  rw [ok_bind hagain, ok_bind h₂.final]
  dsimp only
  rw [ok_bind hsalt, ok_bind hboth, ok_bind h₄.final]
  simp only [LibBinlog.cooksalt, Vector.toList_zipWith, toList_sha1Digest]
  rfl

/-- A server that keeps the twofold digest of the password takes the answer for one, if password and
salt are shorter than `2 ^ 32` bytes. -/
theorem cooksalt_answers (sha : Sha1Ctx) (salt passwd : Mem) {slen plen : ℕ} (hslen : slen < 2 ^ 32)
    (hplen : plen < 2 ^ 32) : ∃ answer : Vector UInt8 20,
      Sha1.cooksalt sha salt slen passwd plen = .ok answer.toList ∧
        Passes sha1Digest (slice salt 0 slen)
          (sha1Digest (digest (slice passwd 0 plen))) answer := by
  have heq := cooksalt_eq sha salt slen passwd plen
  rw [Nat.mod_eq_of_lt hslen, Nat.mod_eq_of_lt hplen] at heq
  exact ⟨_, heq, cooksalt_passes sha1Digest (slice salt 0 slen) (slice passwd 0 plen)⟩

theorem cooksalt_answers_secret : ∃ answer : Vector UInt8 20,
    Sha1.cooksalt .wiped (ofBytes (List.replicate 20 7)) 20 (ofBytes (ascii "secret")) 6 =
        .ok answer.toList ∧
      Passes sha1Digest (slice (ofBytes (List.replicate 20 7)) 0 20)
        (sha1Digest (digest (slice (ofBytes (ascii "secret")) 0 6))) answer :=
  cooksalt_answers .wiped (ofBytes (List.replicate 20 7)) (ofBytes (ascii "secret")) (by norm_num)
    (by norm_num)

end LibBinlog
