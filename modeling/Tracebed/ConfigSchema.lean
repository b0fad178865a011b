import Tracebed.Lib.DictPath
import Tracebed.Lib.Fallible

/-!
# The Overridable Sections of the Configuration

`domain/config.py` declares one model per section. A field the dictionary leaves out takes its
default, a key that is no field is refused (`extra="forbid"`), and every value has to read as the
field's type and to meet the field's bounds; `ScalarReader` states what is relied on of the
validation library. A section that was read is known by its leaves, and the order of the members
of its dictionary does not matter (`validate_congr`).
-/

open Py Overlay List Fallible

namespace Tracebed.Config

/-! ### Scalars -/

/-- The types of scalar fields. -/
inductive ScalarKind
  | int
  | float
  | bool
  | str
  deriving DecidableEq

/-- The value of a scalar field. -/
inductive Scalar
  | int (n : ℤ)
  | float (x : PyFloat)
  | bool (b : Bool)
  | str (s : PyStr)
  deriving DecidableEq

/-- How the validation library reads a value as a scalar: a value of the type itself is kept,
a whole number is read as a `float`, a dictionary is no scalar. Other conversions (a text
that spells a number, a `bool` as an `int`) are left open. -/
structure ScalarReader where
  read : ScalarKind → Json → Option Scalar
  read_int : ∀ n, read .int (.int n) = some (.int n)
  read_float : ∀ x, read .float (.float x) = some (.float x)
  read_float_int : ∀ n : ℤ, |n| ≤ 2 ^ 53 → read .float (.int n) = some (.float (.fin n))
  read_bool : ∀ b, read .bool (.bool b) = some (.bool b)
  read_str : ∀ s, read .str (.str s) = some (.str s)
  read_mapping : ∀ k m, read k (.obj m) = none

variable (name : String) (R : ScalarReader)

/-- The reader that converts nothing but whole numbers to `float`. -/
def strictReader : ScalarReader where
  read
    | .int, .int n => some (.int n)
    | .float, .float x => some (.float x)
    | .float, .int n => if |n| ≤ 2 ^ 53 then some (.float (.fin n)) else none
    | .bool, .bool b => some (.bool b)
    | .str, .str s => some (.str s)
    | _, _ => none
  read_int _ := rfl
  read_float _ := rfl
  read_float_int _ h := if_pos h
  read_bool _ := rfl
  read_str _ := rfl
  read_mapping k _ := by cases k <;> rfl

/-- The bounds a `Field` declares. -/
structure Constraint where
  gt : Option ℚ := none
  ge : Option ℚ := none
  lt : Option ℚ := none
  le : Option ℚ := none
  allowInfNan : Bool := true

/-- The value meets the bounds. -/
def Constraint.holds (c : Constraint) : Scalar → Bool
  | .int n =>
    c.gt.all (· < (n : ℚ)) && c.ge.all (· ≤ (n : ℚ)) &&
      c.lt.all ((n : ℚ) < ·) && c.le.all ((n : ℚ) ≤ ·)
  | .float x =>
    c.gt.all (fun b => PyFloat.lt (.fin b) x) && c.ge.all (fun b => PyFloat.le (.fin b) x) &&
      c.lt.all (fun b => PyFloat.lt x (.fin b)) && c.le.all (fun b => PyFloat.le x (.fin b)) &&
      (c.allowInfNan || x.isFinite)
  | _ => true

/-- A scalar type with its bounds and, unless it is a dictionary's value type, its default. -/
structure LeafType where
  kind : ScalarKind
  default : Option Json
  constraint : Constraint := {}

variable (t : LeafType)

/-- Read a leaf: its default if there is no value. -/
def LeafType.read (value : Option Json) : Option Scalar :=
  ((value.or t.default).bind (R.read t.kind)).filter t.constraint.holds

/-! ### Models -/

/-- The scalars of a section, by their paths. -/
abbrev Leaves := List PyStr → Option Scalar

/-- A model that was read: its fields, in order, each with how a value of it is read. -/
abbrev FieldReader := Option Json → Option Leaves

/-- Read a dictionary field by field, refusing keys that are no fields. -/
def readRecord (fields : List (PyStr × FieldReader)) (m : Dict) : Option Leaves :=
  if m.keys.all ((fields.map Prod.fst).contains ·) &&
      fields.all (fun f => (f.2 (m.find f.1)).isSome) then
    some fun
      | [] => none
      | k :: x => (fields.lookup k).bind fun read => (read (m.find k)).bind (· x)
  else none

/-- The field types of the section models: a scalar, a dictionary of scalars, or a model of
scalars with a check of its own. -/
inductive FieldType
  | scalar (t : LeafType)
  | dict (kind : ScalarKind) (default : Dict)
  | model (fields : List (PyStr × LeafType)) (check : Leaves → Bool)

def scalarLeaves (s : Scalar) : Leaves
  | [] => some s
  | _ => none

def readScalar : FieldReader :=
  fun value => (t.read R value).map scalarLeaves

def readDict (kind : ScalarKind) (m : Dict) : Option Leaves :=
  if m.keys.all (fun k => (LeafType.read R ⟨kind, none, {}⟩ (m.find k)).isSome) then
    some fun
      | [k] => LeafType.read R ⟨kind, none, {}⟩ (m.find k)
      | _ => none
  else none

def FieldType.read : FieldType → FieldReader
  | .scalar t, value => readScalar R t value
  | .dict kind default, value =>
    match value.getD (.obj default) with
    | .obj m => readDict R kind m
    | _ => none
  | .model fields check, value =>
    match value.getD (.obj []) with
    | .obj m => (readRecord (fields.map fun f => (f.1, readScalar R f.2)) m).filter check
    | _ => none

/-- What `model_dump` writes for a field that has its default. -/
def FieldType.dump : FieldType → Json
  | .scalar t => t.default.getD .null
  | .dict _ default => .obj default
  | .model fields _ => .obj (fields.map fun f => (f.1, f.2.default.getD .null))

/-! ### The sections -/

abbrev Field := PyStr × FieldType

variable (default : ℤ)

/-- An `int` field. -/
def intField (constraint : Constraint := {}) : Field :=
  (str name, .scalar ⟨.int, some (.int default), constraint⟩)

/-- A `float` field with a `float` default. -/
def floatField (default : ℚ) (constraint : Constraint := {}) : Field :=
  (str name, .scalar ⟨.float, some (.float (.round default)), constraint⟩)

/-- A `float` field whose default is written as a whole number. -/
def floatFieldInt (constraint : Constraint := {}) : Field :=
  (str name, .scalar ⟨.float, some (.int default), constraint⟩)

/-- A `bool` field. -/
def boolField (default : Bool) : Field :=
  (str name, .scalar ⟨.bool, some (.bool default), {}⟩)

/-- A `str` field. -/
def strField (default : String) : Field :=
  (str name, .scalar ⟨.str, some (.str (str default)), {}⟩)

/-- A `dict[str, float]` field. -/
def floatDictField (default : List (String × ℚ)) : Field :=
  (str name, .dict .float (default.map fun e => (str e.1, .float (.round e.2))))

/-- `RetrievalConfig`. -/
def retrievalConfig : List Field :=
  [intField "total_budget_ms" 300 { ge := some 1 },
    intField "embed_timeout_ms" 200 { ge := some 1 },
    intField "rrf_k" 60,
    floatField "rrf_weight_vector" 1,
    floatField "rrf_weight_lexical" 1,
    intField "arm_top_n" 50,
    intField "fused_top_n" 20,
    boolField "hnsw_iterative_scan" true,
    intField "hnsw_max_scan_tuples" 20000]

/-- `AbstentionConfig`. -/
def abstentionConfig : List Field :=
  [floatField "cos_threshold" (6 / 10),
    floatField "bm25_sat_k" 10,
    floatField "bm25_norm_threshold" (1 / 2),
    intField "rarity_min_shared_terms" 2,
    floatField "rarity_max_df_pct" 2,
    intField "rarity_min_corpus_docs" 200,
    floatField "target_abstention_pct" 50 { ge := some 0, le := some 100 }]

/-- `ScoreConfig`. -/
def scoreConfig : List Field :=
  [floatField "w_sim" (4 / 10),
    floatField "w_q" (3 / 10),
    floatField "w_recency" (15 / 100),
    floatField "w_validity" (15 / 100),
    intField "recency_half_life_days" 14]

/-- `BudgetConfig`. -/
def budgetConfig : List Field :=
  [intField "total_tokens" 1200,
    intField "static_prefix" 700,
    intField "static_prefix_prefs" 200,
    intField "static_prefix_lessons" 500,
    intField "dynamic" 500,
    (str "slot_caps", .dict .int
      [(str "fact", .int 250), (str "exemplar", .int 150), (str "pitfall", .int 100),
        (str "candidate_note", .int 100), (str "jit_lesson", .int 150)])]

/-- `ScoringConfig`. -/
def scoringConfig : List Field :=
  [floatField "alpha" (3 / 10) { gt := some 0, le := some 1 },
    floatField "q_start" (1 / 2) { ge := some 0, le := some 1 },
    floatDictField "adapter_weights"
      [("verdict", 1), ("correction_adapter", 8 / 10), ("downstream", 3 / 10), ("implicit", 0)],
    floatDictField "contribution_rubric" [("NONE", 0), ("PARTIAL", 1 / 2), ("FULL", 1)],
    floatField "contribution_judge_temperature" 0 { ge := some 0, le := some 2 },
    intField "updates_per_memory_per_day" 1 { ge := some 1 }]

/-- `PromotionConfig`. -/
def promotionConfig : List Field :=
  [intField "min_outcomes" 2,
    intField "failure_lesson_outcomes" 1,
    intField "min_distinct_principals" 2]

/-- `RetirementConfig`. -/
def retirementConfig : List Field :=
  [floatField "q_threshold" (1 / 4),
    intField "min_scored_uses" 4,
    intField "min_distinct_principals" 3]

/-- `LifecycleConfig`. -/
def lifecycleConfig : List Field :=
  [floatFieldInt "decay_pct_per_idle_week" 5 { ge := some 0, le := some 100 },
    floatField "archive_floor" (15 / 100) { ge := some 0, le := some 1 },
    intField "quarantine_ttl_days" 30 { ge := some 1 },
    intField "candidate_ttl_days" 45 { ge := some 1 },
    intField "revalidation_age_days" 30 { ge := some 1 }]

/-- `DerivedConfig`. -/
def derivedConfig : List Field :=
  [floatFieldInt "baseline_max_delta_pct" 10 { gt := some 0, allowInfNan := false },
    intField "clamp_alert_consecutive" 3 { ge := some 1 },
    floatFieldInt "divergence_alarm_pct" 25 { ge := some 0, allowInfNan := false },
    intField "keep_versions" 20 { ge := some 1 }]

/-- `ProposalConfig`. -/
def proposalConfig : List Field :=
  [intField "per_run_cap" 2,
    intField "per_project_daily_cap" 50]

/-- `MAX_TIER_A_CANDIDATES_PER_RESULT`. -/
def maxTierACandidatesPerResult : ℚ := 100

/-- `TierAConfig`. -/
def tierAConfig : List Field :=
  [intField "candidate_cap_per_run" 1 { ge := some 0, le := some maxTierACandidatesPerResult }]

/-- `KillswitchConfig`. -/
def killswitchConfig : List Field :=
  [floatFieldInt "holdout_pct" 5,
    strField "salt_env" "TB_HOLDOUT_SALT",
    intField "window_days" 14,
    intField "min_cell_n" 200,
    strField "correction" "benjamini-hochberg",
    floatField "fdr_alpha" (5 / 100) { gt := some 0, lt := some 1 },
    floatField "confidence_level" (95 / 100) { gt := some (1 / 2), lt := some 1 }]

/-- `SpendConfig`. -/
def spendConfig : List Field := [floatField "daily_llm_cap_usd" 25]

/-- `CacheConfig`. -/
def cacheConfig : List Field :=
  [(str "ttl_class", .dict .str
    [(str "intel", .str (str "24h")), (str "registry", .str (str "14d"))])]

/-- `SessionConfig`. -/
def sessionConfig : List Field :=
  [intField "idle_ttl_min" 60,
    intField "offload_threshold_tokens" 20000]

/-- An `int` field of a nested model, at least 1. -/
def limit (le : Option ℚ := none) : PyStr × LeafType :=
  (str name, ⟨.int, some (.int default), { ge := some 1, le := le }⟩)

/-- The `int` at a path, for comparison with another one. -/
def Leaves.intAt (l : Leaves) (name : String) : ℤ :=
  match l [str name] with
  | some (.int n) => n
  | _ => 0

/-- `QueueAdmissionLimits`, with `_validate_admission_relationships`. -/
def queueAdmissionLimits : FieldType :=
  .model
    [limit "max_item_bytes" 262144 (some 262144),
      limit "max_batch_bytes" 4194304 (some 4194304),
      limit "max_batch_items" 500 (some 500),
      limit "max_project_depth" 10000,
      limit "max_topic_depth" 50000,
      limit "max_global_depth" 100000]
    fun l =>
      decide (l.intAt "max_item_bytes" ≤ l.intAt "max_batch_bytes") &&
        decide (l.intAt "max_project_depth" ≤ l.intAt "max_global_depth") &&
        decide (l.intAt "max_topic_depth" ≤ l.intAt "max_global_depth")

/-- `MAX_QUEUE_ATTEMPTS`. -/
def maxQueueAttempts : ℚ := 32

/-- `QueueConfig`. -/
def queueConfig : List Field :=
  [intField "lease_seconds" 30 { ge := some 1 },
    intField "max_attempts" 5 { ge := some 1, le := some maxQueueAttempts },
    intField "batch_size" 100 { ge := some 1 },
    (str "admission", queueAdmissionLimits)]

/-- `_SECTION_MODELS`. -/
def sectionModels : List (PyStr × List Field) :=
  [(str "retrieval", retrievalConfig),
    (str "abstention", abstentionConfig),
    (str "score", scoreConfig),
    (str "budget", budgetConfig),
    (str "scoring", scoringConfig),
    (str "promotion", promotionConfig),
    (str "retirement", retirementConfig),
    (str "lifecycle", lifecycleConfig),
    (str "derived", derivedConfig),
    (str "proposals", proposalConfig),
    (str "tier_a", tierAConfig),
    (str "killswitch", killswitchConfig),
    (str "spend", spendConfig),
    (str "cache", cacheConfig),
    (str "session", sessionConfig),
    (str "queue", queueConfig)]

/-- `OVERRIDABLE_SECTIONS`. -/
def overridableSections : List PyStr := sectionModels.map Prod.fst

/-- `model_cls.model_validate(merged[section])`. -/
def validate (name : PyStr) (value : Json) : Option Leaves :=
  (sectionModels.lookup name).bind fun fields =>
    match value with
    | .obj m => readRecord (fields.map fun f => (f.1, f.2.read R)) m
    | _ => none

/-! ### Reading looks at paths only -/

variable {m : Dict}

theorem mem_keys_iff {k : PyStr} : k ∈ m.keys ↔ (m.find k).isSome := by
  constructor
  · intro h
    obtain ⟨p, hp, rfl⟩ := mem_map.mp h
    rw [Dict.find, Option.isSome_map]
    exact find?_isSome.mpr ⟨p, hp, beq_self_eq_true _⟩
  · intro h
    obtain ⟨v, hv⟩ := Option.isSome_iff_exists.mp h
    exact mem_map.mpr ⟨(k, v), Dict.mem_of_find hv, rfl⟩

/-- Dictionaries with the same paths have values with the same paths under every key. -/
theorem find_doc_congr {m' : Dict} (h : (Json.obj m).doc = (Json.obj m').doc) (k : PyStr) :
    (m.find k).map Json.doc = (m'.find k).map Json.doc := by
  have hk : ∀ p, (m.find k).bind (fun j => j.doc p) = (m'.find k).bind (fun j => j.doc p) := by
    intro p
    rw [← Json.doc_obj_cons, ← Json.doc_obj_cons, h]
  cases hm : m.find k with
  | none =>
    cases hm' : m'.find k with
    | none => rfl
    | some v' => simpa [hm, hm'] using hk []
  | some v =>
    cases hm' : m'.find k with
    | none => simpa [hm, hm'] using hk []
    | some v' =>
      have hdoc : v.doc = v'.doc := by
        funext p
        simpa [hm, hm'] using hk p
      simp [hdoc]

/-- Values with the same paths are both dictionaries, or the same. -/
theorem eq_or_obj_of_doc {j j' : Json} (h : j.doc = j'.doc) :
    j = j' ∨ ∃ m m', j = .obj m ∧ j' = .obj m' := by
  have hnil : j.shape = j'.shape := by simpa using congrFun h []
  cases j <;> cases j' <;> simp_all [Json.shape]

/-- A reader that looks at the paths of a value only. -/
def FieldReader.Respects (read : FieldReader) : Prop :=
  ∀ v v' : Option Json, v.map Json.doc = v'.map Json.doc → read v = read v'

/-- A dictionary is no leaf. -/
theorem leafRead_obj (m : Dict) : t.read R (some (.obj m)) = none := by
  rw [LeafType.read, Option.some_or, Option.bind_some, R.read_mapping]
  rfl

theorem leafRead_shape {v v' : Option Json} (h : v.map Json.shape = v'.map Json.shape) :
    t.read R v = t.read R v' := by
  obtain ⟨rfl, rfl⟩ | ⟨j, j', rfl, rfl, hshape⟩ := map_eq_map_cases h
  · rfl
  · cases j <;> cases j' <;> simp_all [Json.shape, leafRead_obj]

theorem leafRead_congr {v v' : Option Json} (h : v.map Json.doc = v'.map Json.doc) :
    t.read R v = t.read R v' := by
  obtain ⟨rfl, rfl⟩ | ⟨j, j', rfl, rfl, hdoc⟩ := map_eq_map_cases h
  · rfl
  · obtain rfl | ⟨m, m', rfl, rfl⟩ := eq_or_obj_of_doc hdoc
    · rfl
    · rw [leafRead_obj, leafRead_obj]

theorem readScalar_respects : (readScalar R t).Respects := by
  intro v v' h
  rw [readScalar, readScalar, leafRead_congr R t h]

theorem keys_all_iff {p : PyStr → Bool} :
    m.keys.all p = true ↔ ∀ k, (m.find k).isSome → p k = true := by
  simp [mem_keys_iff]

theorem keys_all_congr {m' : Dict} (h : (Json.obj m).doc = (Json.obj m').doc) {p p' : PyStr → Bool}
    (hp : ∀ k, p k = p' k) : m.keys.all p = m'.keys.all p' := by
  have hfound : ∀ k, (m.find k).isSome = (m'.find k).isSome := by
    intro k
    have := congrArg Option.isSome (find_doc_congr h k)
    simpa using this
  rw [Bool.eq_iff_iff, keys_all_iff, keys_all_iff]
  simp [hfound, hp]

theorem mem_of_lookup {β : Type} {l : List (PyStr × β)} {k : PyStr} {b : β}
    (h : l.lookup k = some b) : (k, b) ∈ l := by
  obtain ⟨l₁, l₂, rfl, -⟩ := lookup_eq_some_iff.mp h
  exact mem_append_right _ mem_cons_self

theorem readRecord_congr {fields : List (PyStr × FieldReader)}
    (hfields : ∀ f ∈ fields, f.2.Respects) {m' : Dict} (h : (Json.obj m).doc = (Json.obj m').doc) :
    readRecord fields m = readRecord fields m' := by
  have hkeys : m.keys.all ((fields.map Prod.fst).contains ·) =
      m'.keys.all ((fields.map Prod.fst).contains ·) := keys_all_congr h fun _ => rfl
  have hread : ∀ f ∈ fields, f.2 (m.find f.1) = f.2 (m'.find f.1) :=
    fun f hf => hfields f hf _ _ (find_doc_congr h f.1)
  have hall : fields.all (fun f => (f.2 (m.find f.1)).isSome) =
      fields.all (fun f => (f.2 (m'.find f.1)).isSome) := by
    rw [Bool.eq_iff_iff, all_eq_true, all_eq_true]
    exact forall₂_congr fun f hf => by rw [hread f hf]
  unfold readRecord
  rw [hkeys, hall]
  split
  · congr 1
    funext x
    cases x with
    | nil => rfl
    | cons k x =>
      cases hl : fields.lookup k with
      | none => simp [hl]
      | some read =>
        have hsame : read (m.find k) = read (m'.find k) := hread _ (mem_of_lookup hl)
        simp [hl, hsame]
  · rfl

theorem readDict_congr (R : ScalarReader) (kind : ScalarKind) {m' : Dict}
    (h : (Json.obj m).doc = (Json.obj m').doc) : readDict R kind m = readDict R kind m' := by
  have hread : ∀ k, LeafType.read R ⟨kind, none, {}⟩ (m.find k) =
      LeafType.read R ⟨kind, none, {}⟩ (m'.find k) :=
    fun k => leafRead_congr R _ (find_doc_congr h k)
  have hall : m.keys.all (fun k => (LeafType.read R ⟨kind, none, {}⟩ (m.find k)).isSome) =
      m'.keys.all (fun k => (LeafType.read R ⟨kind, none, {}⟩ (m'.find k)).isSome) :=
    keys_all_congr h fun k => by rw [hread]
  unfold readDict
  rw [hall]
  simp [hread]

theorem fieldRead_respects (R : ScalarReader) (t : FieldType) :
    FieldReader.Respects (t.read R) := by
  -- a missing value has nothing to compare; two present ones are equal or both dictionaries
  intro v v' h
  obtain ⟨rfl, rfl⟩ | ⟨j, j', rfl, rfl, hdoc⟩ := map_eq_map_cases h
  · rfl
  cases t with
  | scalar t => exact readScalar_respects R t _ _ h
  | dict kind default =>
    obtain rfl | ⟨m, m', rfl, rfl⟩ := eq_or_obj_of_doc hdoc
    · rfl
    · exact readDict_congr R kind hdoc
  | model fields check =>
    obtain rfl | ⟨m, m', rfl, rfl⟩ := eq_or_obj_of_doc hdoc
    · rfl
    · have hfields : ∀ f ∈ fields.map (fun f => (f.1, readScalar R f.2)),
          FieldReader.Respects f.2 := by
        intro f hf
        obtain ⟨g, -, rfl⟩ := mem_map.mp hf
        exact readScalar_respects R g.2
      have hrec := readRecord_congr hfields hdoc
      simp [FieldType.read, hrec]

/-- A section is read from the paths of its dictionary. -/
theorem validate_congr (name : PyStr) {j j' : Json} (h : j.doc = j'.doc) :
    validate R name j = validate R name j' := by
  obtain rfl | ⟨m, m', rfl, rfl⟩ := eq_or_obj_of_doc h
  · rfl
  · unfold validate
    cases sectionModels.lookup name with
    | none => rfl
    | some fields =>
      refine readRecord_congr (fun f hf => ?_) h
      obtain ⟨g, -, rfl⟩ := mem_map.mp hf
      exact fieldRead_respects R g.2

end Tracebed.Config
