import Galera.Lib.LastWriter
import Galera.Cert.Types
import Galera.Cert.Test
import Galera.Cert.Verdict
import Galera.Cert.Effect
import Galera.Cert.Append
import Galera.Cert.Invariant
import Galera.Cert.Purge
import Galera.Cert.PurgeRun
import Galera.KeySet.Out
import Galera.KeySet.Dedup
import Galera.Lib.Ring
import Galera.Monitor.Basic
import Galera.Monitor.Invariant
import Galera.Lib.ListRel
import Galera.Lib.ArgMin
import Galera.Lib.Index
import Galera.Gcs.StateMsg
import Galera.Gcs.Quorum
import Galera.Gcs.Defrag
import Galera.Lib.Bytes
import Galera.Gcs.ActProto
import Galera.Gcs.Group
import Galera.Gcs.Core
import Galera.Gcs.CommitCut
import Galera.Gcs.CoreSend
import Galera.Gcs.SendMonitor
import Galera.Gcs.SendMonitorRun
import Galera.Gcache.DeqMap
import Galera.Gcache.RingBuffer
import Galera.Gcache.Seqno
import Galera.Evs.InputMap
import Galera.Evs.InputMapInv
import Galera.Gu.Vlq
import Galera.Gu.RecordSet
import Galera.Gu.RecordSetRoundTrip
import Galera.Gu.RecordSetRead
import Galera.Gcs.StateMsgWire
import Galera.Evs.GapRange
import Galera.Cert.Preordered
import Galera.Gu.RecordSetSafety
import Galera.Gcs.Donor
import Galera.Gcache.DeqMapRefine
import Galera.Evs.Deliver
import Galera.Lib.Quorum
import Galera.Pc.Quorum
import Galera.Cert.WriteSetNG
import Galera.Gcache.RbReset
import Galera.Lib.Chunks
import Galera.Gu.Mmh3
import Galera.SavedState
import Galera.Gcs.FlowControl
import Galera.Gu.Fifo
import Galera.Evs.MessageRoundTrip
import Galera.Pc.Proto
import Galera.Pc.StateExchange
import Galera.Pc.Install
import Galera.Pc.Message
import Galera.Pc.Delivery
