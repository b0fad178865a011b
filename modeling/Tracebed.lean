import Tracebed.Corroboration
import Tracebed.Consolidation
import Tracebed.Sentinel
import Tracebed.Ownership
import Tracebed.RunOnce
import Tracebed.EnvelopeCanonical
import Tracebed.AadBinding
import Tracebed.ArchiveAgreement
import Tracebed.ArchiveDigest
import Tracebed.SdkDelivery
import Tracebed.Pipeline
import Tracebed.ConfigPrecedence
import Tracebed.KillSwitch
import Tracebed.ErasureClosure
import Tracebed.ErasureProgress
import Tracebed.ErasureCallOrder
import Tracebed.ErasureRefusal
import Tracebed.QueueConservation
import Tracebed.ProposalCaps
import Tracebed.Blackboard
import Tracebed.StaleStrikes
import Tracebed.JitGate
import Tracebed.BlastRadius
import Tracebed.Scheduler
