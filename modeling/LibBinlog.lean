import LibBinlog.PartialImages
import LibBinlog.EndSignal
import LibBinlog.Delivery
import LibBinlog.Resume
import LibBinlog.EndCoords
import LibBinlog.FilePosition
import LibBinlog.Locality
import LibBinlog.VariableLength
import LibBinlog.DecimalText
import LibBinlog.TemporalText
import LibBinlog.NullBitmap
import LibBinlog.FileEvents
import LibBinlog.StartIndex
import LibBinlog.CutPackets
import LibBinlog.PacketBoundaries
import LibBinlog.ReplyCheck
import LibBinlog.HandshakeFields
import LibBinlog.AuthBytes
import LibBinlog.DumpCommand
import LibBinlog.NetVio
import LibBinlog.MySQLUrl
import LibBinlog.FileUrl
import LibBinlog.VioRuns
import LibBinlog.RowProgress
import LibBinlog.LengthDecoders
import LibBinlog.RowArrays
import LibBinlog.Sha1Scramble
import LibBinlog.Sessions
import LibBinlog.Refusals
import LibBinlog.AnetLoops
import LibBinlog.Dump
import LibBinlog.OwnedSessions
import LibBinlog.DumpRuns
import LibBinlog.DumpLog
