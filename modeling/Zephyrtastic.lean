import Zephyrtastic.Admin.Replay
import Zephyrtastic.Admin.Solicited
import Zephyrtastic.Airtime.Sliding
import Zephyrtastic.Attachment.Admission
import Zephyrtastic.Attachment.Reasm
import Zephyrtastic.Attachment.Withdrawal
import Zephyrtastic.Cluster.Agreement
import Zephyrtastic.Cluster.Answers
import Zephyrtastic.Cluster.Backoff
import Zephyrtastic.Cluster.Minting
import Zephyrtastic.Cluster.Origin
import Zephyrtastic.Cluster.Signing
import Zephyrtastic.Cluster.Verdicts
import Zephyrtastic.Cluster.Walk
import Zephyrtastic.KeyVerify.Confirmed
import Zephyrtastic.Lockdown.KeyRecord
import Zephyrtastic.Lockdown.Placeholder
import Zephyrtastic.Lockdown.Session
import Zephyrtastic.Lockdown.Throttle
import Zephyrtastic.NodeDb.Evicted
import Zephyrtastic.NodeDb.Restore
import Zephyrtastic.NodeDb.Trust
import Zephyrtastic.Outbound.DutyGate
import Zephyrtastic.Outbound.Wakeup
import Zephyrtastic.PhoneApi.Authorization
import Zephyrtastic.PhoneApi.Delivery
import Zephyrtastic.PhoneApi.Eviction
import Zephyrtastic.PhoneApi.Redaction
import Zephyrtastic.Preset.Band
import Zephyrtastic.Reliable.Delivery
import Zephyrtastic.Router.Flood
import Zephyrtastic.Router.NextHop
import Zephyrtastic.Router.Provenance
import Zephyrtastic.TextRelay.LoopFree
