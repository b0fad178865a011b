import Tracebed.Lib.Table
import Tracebed.Subjects

/-!
# The Delta Log of a Consolidated Memory

`workers/deltas.py` and `workers/consolidator.py`: the content of a memory is a set of named
elements. A sweep turns what it observed into deltas, one per element that is new or changed, and
records them; it drops nothing (`consolidate_spec`). Only a retraction removes an element. The log
replays to the last state and to the state before any sweep (`reconstruct_run`).
-/

open Py Fallible Table List

namespace Tracebed.Consolidation

/-- `Element`; its construction refuses a name or a text of white space only. -/
structure Element where
  name : PyStr
  text : PyStr
  named : name.any (!isSpaceChar ·) = true
  worded : text.any (!isSpaceChar ·) = true

/-- `ElementSet`: no two elements have one name. -/
structure ElementSet where
  elements : List Element
  unique : Table.Keyed Element.name elements

/-- `ElementSet()`. -/
def ElementSet.empty : ElementSet := ⟨[], nodup_nil⟩

/-- `by_name().get(name)`. -/
def ElementSet.get (state : ElementSet) (name : PyStr) : Option Element :=
  state.elements.find? (·.name = name)

/-- What the element of a name says. -/
def ElementSet.text? (state : ElementSet) (name : PyStr) : Option PyStr :=
  (state.get name).map Element.text

/-- `Delta`: a text comes with an `ADD` and an `AMEND` only. -/
inductive Delta
  | add (e : Element)
  | amend (e : Element)
  | remove (name : PyStr) (named : name.any (!isSpaceChar ·) = true)

/-- `Delta.name` and `Delta.text`. -/
def Delta.target : Delta → PyStr × Option PyStr
  | add e | amend e => (e.name, some e.text)
  | remove name _ => (name, none)

/-- What is raised, with the names its text lists. -/
inductive DeltaError
  | cannotAdd (name : PyStr)
  | cannotAmend (name : PyStr)
  | cannotRemove (name : PyStr)
  | negativeSweep
  | duplicated (names : List PyStr)
  | cannotRetract (name : PyStr)

/-- `apply_delta`. -/
def applyDelta (state : ElementSet) : Delta → Except DeltaError ElementSet
  | .add e =>
    if h : e.name ∈ state.elements.map Element.name then .error (.cannotAdd e.name)
    else .ok ⟨state.elements ++ [e], state.unique.append_singleton h⟩
  | .amend e =>
    if e.name ∈ state.elements.map Element.name then
      .ok ⟨updateWhere (·.name = e.name)
        (fun old => { old with text := e.text, worded := e.worded }) state.elements,
        state.unique.updateWhere fun _ => rfl⟩
    else .error (.cannotAmend e.name)
  | .remove name _ =>
    if name ∈ state.elements.map Element.name then
      .ok ⟨state.elements.filter (·.name ≠ name), state.unique.filter _⟩
    else .error (.cannotRemove name)

/-- `apply_deltas`. -/
def applyDeltas (state : ElementSet) (deltas : List Delta) : Except DeltaError ElementSet :=
  deltas.foldlM applyDelta state

/-- `DeltaRecord`. -/
structure DeltaRecord where
  memoryId : MemoryId
  sweep : ℤ
  delta : Delta
  appliedAt : ℤ
  sweep_nonneg : 0 ≤ sweep

/-- `reconstruct`: the loop leaves off at the first record of the given sweep or a later one. -/
def reconstruct (records : List DeltaRecord) (uptoSweep : Option ℤ) :
    Except DeltaError ElementSet :=
  applyDeltas .empty
    ((records.takeWhile fun r => uptoSweep.all (r.sweep < ·)).map DeltaRecord.delta)

/-- `ConsolidationOutcome`. -/
structure ConsolidationOutcome where
  memoryId : MemoryId
  sweep : ℤ
  before : ElementSet
  after : ElementSet
  deltas : List Delta
  records : List DeltaRecord

variable (memoryId : MemoryId) (state : ElementSet) (sweep now : ℤ)

/-- The construction of a record. -/
def record (delta : Delta) : Except DeltaError DeltaRecord :=
  if h : 0 ≤ sweep then .ok ⟨memoryId, sweep, delta, now, h⟩ else .error .negativeSweep

/-- How both methods end: the deltas are applied, then recorded. -/
def conclude (deltas : List Delta) : Except DeltaError ConsolidationOutcome := do
  let after ← applyDeltas state deltas
  let records ← deltas.mapM (record memoryId sweep now)
  .ok ⟨memoryId, sweep, state, after, deltas, records⟩

/-- What one observed element changes. -/
def deltaFor (e : Element) : Option Delta :=
  match state.text? e.name with
  | none => some (.add e)
  | some text => if text ≠ e.text then some (.amend e) else none

/-- `Consolidator.consolidate`. -/
def consolidate (incoming : List Element) : Except DeltaError ConsolidationOutcome := do
  let names := incoming.map Element.name
  ensure (decide names.Nodup)
    (.duplicated ((names.filter (1 < names.count ·)).dedup.insertionSort (· ≤ ·)))
  conclude memoryId state sweep now (incoming.filterMap (deltaFor state))

/-- `Consolidator.retract`. -/
def retract (name : PyStr) : Except DeltaError ConsolidationOutcome := do
  let e ← orThrow (state.get name) (.cannotRetract name)
  conclude memoryId state sweep now [.remove e.name e.named]

/-! ### A sweep -/

variable {memoryId state sweep now} {state' s : ElementSet} {delta : Delta} {e : Element}
  {incoming : List Element} {deltas : List Delta} {outcome : ConsolidationOutcome}

/-- A delta says what its element says, and changes no other. -/
theorem applyDelta_spec (h : applyDelta state delta = .ok s) (name : PyStr) :
    s.text? name = if name = delta.target.1 then delta.target.2 else state.text? name := by
  simp only [ElementSet.text?, ElementSet.get]
  cases delta with
  | add e =>
    simp only [applyDelta] at h
    split_ifs at h
    cases h
    grind [Delta.target]
  | amend e =>
    simp only [applyDelta] at h
    split_ifs at h with hmem
    cases h
    simp only [updateWhere, Delta.target, mem_map] at hmem ⊢
    generalize state.elements = l at hmem ⊢
    by_cases hname : name = e.name
    · induction l with
      | nil => simp at hmem
      | cons o l ih => grind
    · clear hmem
      induction l <;> grind
  | remove =>
    simp only [applyDelta] at h
    split_ifs at h
    cases h
    grind [Delta.target]

/-- Taking over an element that stands as it did when the sweep began. -/
theorem applyDelta_deltaFor (htext : state'.text? e.name = state.text? e.name) :
    ∃ s, applyDeltas state' (deltaFor state e).toList = .ok s ∧
      ∀ name, s.text? name = if name = e.name then some e.text else state'.text? name := by
  have hmem : e.name ∈ state'.elements.map Element.name ↔ (state'.text? e.name).isSome := by
    simp [ElementSet.text?, ElementSet.get]
  have hdelta : ∀ delta s, delta.target = (e.name, some e.text) → applyDelta state' delta = .ok s →
      ∃ s, applyDeltas state' [delta] = .ok s ∧
        ∀ name, s.text? name = if name = e.name then some e.text else state'.text? name := by
    intro delta s htarget h
    refine ⟨s, bind_ok h rfl, fun name => ?_⟩
    rw [applyDelta_spec h, htarget]
  rw [deltaFor, ← htext]
  cases hfound : state'.text? e.name with
  | none => exact hdelta (.add e) _ rfl (dif_neg (by simp [hmem, hfound]))
  | some text =>
    dsimp only
    split_ifs with hchanged
    · exact hdelta (.amend e) _ rfl (if_pos (by simp [hmem, hfound]))
    · exact ⟨state', rfl, by grind⟩

theorem applyDeltas_incoming (hnames : (incoming.map Element.name).Nodup)
    (htext : ∀ e ∈ incoming, state'.text? e.name = state.text? e.name) :
    ∃ s, applyDeltas state' (incoming.filterMap (deltaFor state)) = .ok s ∧
      ∀ name, s.text? name =
        ((incoming.find? (·.name = name)).map Element.text).or (state'.text? name) := by
  induction incoming generalizing state' with
  | nil => exact ⟨state', rfl, fun _ => rfl⟩
  | cons e incoming ih =>
    obtain ⟨hfresh, hnames⟩ := nodup_cons.mp hnames
    obtain ⟨s, hs, hstext⟩ := applyDelta_deltaFor (htext e mem_cons_self)
    have hothers : ∀ o ∈ incoming, o.name ≠ e.name :=
      fun o ho heq => hfresh (heq ▸ mem_map_of_mem ho)
    have hlater : ∀ o ∈ incoming, s.text? o.name = state.text? o.name := fun o ho => by
      rw [hstext, if_neg (hothers o ho), htext o (mem_cons_of_mem _ ho)]
    obtain ⟨s', hs', htext'⟩ := ih hnames hlater
    refine ⟨s', ?_, fun name => ?_⟩
    · have happend : (e :: incoming).filterMap (deltaFor state) =
          (deltaFor state e).toList ++ incoming.filterMap (deltaFor state) := by
        cases h : deltaFor state e <;> simp [h]
      rw [happend, applyDeltas, foldlM_append]
      exact bind_ok hs hs'
    · rw [htext', hstext]
      grind

/-- **A sweep drops nothing.** Whatever the memory holds, a sweep that names no element twice
returns, takes over what it observed and leaves every other element as it is. -/
theorem consolidate_spec (hnames : (incoming.map Element.name).Nodup) (hsweep : 0 ≤ sweep) :
    ∃ outcome, consolidate memoryId state sweep now incoming = .ok outcome ∧
      ∀ name, outcome.after.text? name =
        ((incoming.find? (·.name = name)).map Element.text).or (state.text? name) := by
  obtain ⟨after, hafter, htext⟩ :=
    applyDeltas_incoming hnames fun e _ => Eq.refl (state.text? e.name)
  have hrecord : ∀ d ∈ incoming.filterMap (deltaFor state),
      ∃ r, record memoryId sweep now d = .ok r := fun _ _ => ⟨_, dif_pos hsweep⟩
  obtain ⟨records, hrecords⟩ := exists_forall₂ hrecord
  refine ⟨⟨memoryId, sweep, state, after, incoming.filterMap (deltaFor state), records⟩, ?_, htext⟩
  rw [consolidate, ensure_bind, if_pos (by simpa using hnames), conclude]
  exact bind_ok hafter (bind_ok (mapM_eq_ok.mpr hrecords) rfl)

namespace Sample

def region : Element := ⟨str "region", str "eu", by decide, by decide⟩

/-- The region as a later sweep observes it. -/
def moved : Element := ⟨str "region", str "us", by decide, by decide⟩

/-- A fact that no sweep observes again. -/
def owner : Element := ⟨str "owner", str "ops", by decide, by decide⟩

def tier : Element := ⟨str "tier", str "b", by decide, by decide⟩

def known : ElementSet := ⟨[region, owner], by simp [Keyed, region, owner, str]⟩

/-- The sweep amends the region, adds what is new, and keeps the owner. -/
theorem consolidate_moved : ([moved, tier].map Element.name).Nodup ∧
    ∃ outcome, consolidate ⟨⟨7⟩⟩ known 1 0 [moved, tier] = .ok outcome ∧
      outcome.after.text? owner.name = some owner.text ∧
      ∀ name, outcome.after.text? name =
        (([moved, tier].find? (·.name = name)).map Element.text).or (known.text? name) := by
  have hnames : ([moved, tier].map Element.name).Nodup := by decide
  have hsweep : (0 : ℤ) ≤ 1 := by decide
  obtain ⟨outcome, hok, htext⟩ := consolidate_spec hnames hsweep
  exact ⟨hnames, outcome, hok, htext owner.name, htext⟩

end Sample

/-! ### The log -/

/-- A call of the consolidator on the memory. -/
inductive Call
  | consolidate (incoming : List Element) (sweep now : ℤ)
  | retract (name : PyStr) (sweep now : ℤ)

def Call.perform (memoryId : MemoryId) (state : ElementSet) :
    Call → Except DeltaError ConsolidationOutcome
  | .consolidate incoming sweep now => Consolidation.consolidate memoryId state sweep now incoming
  | .retract name sweep now => Consolidation.retract memoryId state sweep now name

/-- The calls of a run, each on the state the one before left. -/
def run (memoryId : MemoryId) :
    ElementSet → List Call → Except DeltaError (List ConsolidationOutcome)
  | _, [] => .ok []
  | state, call :: calls => do
    let outcome ← call.perform memoryId state
    let later ← run memoryId outcome.after calls
    .ok (outcome :: later)

/-- The records of a call replay what it did to the state. -/
structure ConsolidationOutcome.Records (o : ConsolidationOutcome) (state : ElementSet) : Prop where
  before : o.before = state
  replay : applyDeltas state (o.records.map DeltaRecord.delta) = .ok o.after
  stamped : ∀ r ∈ o.records, r.sweep = o.sweep

theorem mapM_record {records : List DeltaRecord}
    (h : deltas.mapM (record memoryId sweep now) = .ok records) :
    records.map DeltaRecord.delta = deltas ∧ ∀ r ∈ records, r.sweep = sweep := by
  replace h := mapM_eq_ok.mp h
  induction h with
  | nil => simp
  | cons hr _ ih =>
    rw [record] at hr
    split_ifs at hr
    cases hr
    simpa using ih

theorem Call.perform_records {call : Call} (h : call.perform memoryId state = .ok outcome) :
    outcome.Records state := by
  obtain ⟨sweep, now, deltas, h⟩ : ∃ sweep now deltas,
      conclude memoryId state sweep now deltas = .ok outcome := by
    cases call <;> obtain ⟨_, -, h⟩ := bind_eq_ok.mp h <;> exact ⟨_, _, _, h⟩
  obtain ⟨after, hafter, h⟩ := bind_eq_ok.mp h
  obtain ⟨records, hrecords, h⟩ := bind_eq_ok.mp h
  cases h
  obtain ⟨rfl, hstamped⟩ := mapM_record hrecords
  exact ⟨rfl, hafter, hstamped⟩

variable {calls : List Call} {earlier later : List ConsolidationOutcome}

/-- The first outcomes of a run replay to the state that the others start from. -/
theorem replay_run (h : run memoryId state calls = .ok (earlier ++ later)) :
    ∃ s rest, applyDeltas state ((earlier.flatMap (·.records)).map DeltaRecord.delta) = .ok s ∧
      run memoryId s rest = .ok later ∧ ∀ o ∈ earlier, ∀ r ∈ o.records, r.sweep = o.sweep := by
  induction earlier generalizing state calls with
  | nil => exact ⟨state, calls, rfl, h, by simp⟩
  | cons o earlier ih =>
    cases calls with
    | nil => cases h
    | cons call calls =>
      obtain ⟨outcome, hcall, h⟩ := bind_eq_ok.mp h
      obtain ⟨others, hrest, h⟩ := bind_eq_ok.mp h
      cases h
      obtain ⟨-, hreplay, hstamped⟩ := Call.perform_records hcall
      obtain ⟨s, rest, hs, hlater, hothers⟩ := ih hrest
      refine ⟨s, rest, ?_, hlater, forall_mem_cons.mpr ⟨hstamped, hothers⟩⟩
      rw [flatMap_cons, map_append, applyDeltas, foldlM_append]
      exact bind_ok hreplay hs

/-- **The log replays exactly.** If the sweeps of a run come in order, its log replays to the last
state; cut at a sweep, to the state before the first call of that sweep or a later one. -/
theorem reconstruct_run (h : run memoryId .empty calls = .ok (earlier ++ outcome :: later))
    (hsweeps : ((earlier ++ outcome :: later).map (·.sweep)).Pairwise (· < ·)) :
    (∀ k ≤ outcome.sweep, (∀ o ∈ earlier, o.sweep < k) →
      reconstruct ((earlier ++ outcome :: later).flatMap (·.records)) (some k) =
        .ok outcome.before) ∧
      (later = [] → reconstruct ((earlier ++ outcome :: later).flatMap (·.records)) none =
        .ok outcome.after) := by
  -- every record has the sweep of its call
  obtain ⟨-, -, -, -, hstamped⟩ := replay_run (by rwa [append_nil] : run memoryId .empty calls =
    .ok ((earlier ++ outcome :: later) ++ []))
  obtain ⟨s, rest, hs, hrest, -⟩ := replay_run h
  cases rest with
  | nil => cases hrest
  | cons call rest =>
    obtain ⟨o, hcall, hrest⟩ := bind_eq_ok.mp hrest
    obtain ⟨others, hothers, hrest⟩ := bind_eq_ok.mp hrest
    cases hrest
    obtain ⟨rfl, hreplay, -⟩ := Call.perform_records hcall
    refine ⟨fun k hk hearlier => ?_, ?_⟩
    · have hfirst : ∀ r ∈ earlier.flatMap (·.records), (some k).all (r.sweep < ·) = true := by
        intro r hr
        obtain ⟨o, ho, hr⟩ := mem_flatMap.mp hr
        simpa [hstamped o (mem_append_left _ ho) r hr] using hearlier o ho
      have hrest : ∀ r ∈ (outcome :: later).flatMap (·.records),
          ¬ (some k).all (r.sweep < ·) = true := by
        intro r hr
        obtain ⟨o', ho', hr⟩ := mem_flatMap.mp hr
        rw [map_append, pairwise_append, map_cons, pairwise_cons] at hsweeps
        simp only [hstamped o' (mem_append_right _ ho') r hr, Option.all_some, decide_eq_true_eq,
          not_lt]
        obtain rfl | ho' := mem_cons.mp ho'
        · exact hk
        · exact hk.trans (hsweeps.2.1.1 _ (mem_map_of_mem ho')).le
      rw [reconstruct, flatMap_append, takeWhile_append_of_pos hfirst]
      generalize (outcome :: later).flatMap (·.records) = rest' at hrest
      cases rest' with
      | nil => simpa using hs
      | cons r rest' => rwa [takeWhile_cons, if_neg (hrest r mem_cons_self), append_nil]
    · rintro rfl
      have hall : ∀ records : List DeltaRecord,
          (records.takeWhile fun r => (none : Option ℤ).all (r.sweep < ·)) = records :=
        fun records => takeWhile_eq_self_iff.mpr (by simp)
      rw [reconstruct, hall, flatMap_append, map_append, applyDeltas, foldlM_append]
      exact bind_ok hs (by simpa [applyDeltas] using hreplay)

namespace Sample

def added : ConsolidationOutcome :=
  ⟨⟨⟨7⟩⟩, 1, .empty, ⟨[region], nodup_singleton _⟩, [.add region],
    [⟨⟨⟨7⟩⟩, 1, .add region, 0, by decide⟩]⟩

def retracted : ConsolidationOutcome :=
  ⟨⟨⟨7⟩⟩, 2, added.after, .empty, [.remove region.name region.named],
    [⟨⟨⟨7⟩⟩, 2, .remove region.name region.named, 0, by decide⟩]⟩

theorem run_retracted : run ⟨⟨7⟩⟩ .empty [.consolidate [region] 1 0, .retract region.name 2 0] =
    .ok ([added] ++ [retracted]) := rfl

theorem reconstruct_retracted :
    reconstruct (added.records ++ retracted.records) (some 2) = .ok added.after :=
  (reconstruct_run run_retracted (by decide)).1 2 le_rfl (by decide)

end Sample

end Tracebed.Consolidation
