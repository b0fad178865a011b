import Tracebed.Lib.Uuid

/-!
# Identifiers and Enumerations

The typed identifiers of `domain/ids.py` and the closed vocabularies of `domain/enums.py`
and `domain/state_machine.py` that the modelled functions read. Identifiers of different
kinds are distinct types, as in the source, so a run can never be passed for a principal.
-/

open Py

namespace Tracebed

/-- The project wall: derived server-side from the authenticated principal. -/
structure ProjectId where
  value : UUID
  deriving DecidableEq

/-- A run of an agent. -/
structure RunId where
  value : UUID
  deriving DecidableEq

/-- An authenticated principal. -/
structure PrincipalId where
  value : UUID
  deriving DecidableEq

/-- A stored memory. -/
structure MemoryId where
  value : UUID
  deriving DecidableEq

/-- A registered agent type. -/
structure AgentTypeId where
  value : UUID
  deriving DecidableEq

/-- `ProvenanceClass`: how a memory came to exist. -/
inductive ProvenanceClass
  | parser | distiller | humanVerdict | proposal | operator
  deriving DecidableEq

/-- `TrustTier`: `A` is structurally derived, `B` is content derived. -/
inductive TrustTier
  | A | B
  deriving DecidableEq

/-- `MemType`: the kind of a memory. -/
inductive MemType
  | episodic | semantic | lesson | preference
  deriving DecidableEq

/-- `Status`: every legal `memory_item.status`. -/
inductive Status
  | quarantined | candidate | validated | superseded | stale | retired | archived
  | pinned | tombstoned
  deriving DecidableEq

/-- `Status.value`, the wire text of a status. -/
def Status.text : Status → String
  | quarantined => "quarantined"
  | candidate => "candidate"
  | validated => "validated"
  | superseded => "superseded"
  | stale => "stale"
  | retired => "retired"
  | archived => "archived"
  | pinned => "pinned"
  | tombstoned => "tombstoned"

/-- The member name of a status, as its `repr` spells it. -/
def Status.memberName : Status → String
  | quarantined => "QUARANTINED"
  | candidate => "CANDIDATE"
  | validated => "VALIDATED"
  | superseded => "SUPERSEDED"
  | stale => "STALE"
  | retired => "RETIRED"
  | archived => "ARCHIVED"
  | pinned => "PINNED"
  | tombstoned => "TOMBSTONED"

/-- `repr` of a status or of `None`. -/
def Status.repr : Option Status → String
  | none => "None"
  | some s => "<Status." ++ s.memberName ++ ": '" ++ s.text ++ "'>"

end Tracebed
