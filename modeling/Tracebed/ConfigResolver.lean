import Tracebed.ConfigSchema
import Tracebed.Vocabulary

/-!
# Resolving the Layered Configuration

`ConfigResolver.effective` writes the project's override rows over the process settings and then
those of the agent type, reads every section back through its model, and adds the kill-switch
overlay. The store lists the rows of a layer in no particular order (`get_project_config` selects
them without `ORDER BY`), and the resolver writes them in the order they are listed.

## Main results

* `effective_orderFree_iff`: when the order in which the store lists the rows makes no
  difference, whatever the section models are.
* `effective_models_reordered`: one call under the section models of the repository.
* `effective_order_matters`: two listings of the same two rows, two configurations.
-/

open Py Overlay Fallible List

namespace Tracebed.Config

/-! ### Keys -/

/-- `ConfigError`, by what it complains about. -/
inductive ConfigError
  | notDotted (key : PyStr)
  | notOverridable (key : PyStr)
  | traversesNonMapping (key : PyStr)
  | invalidSection (name : PyStr)
  | invalidCombination
  deriving DecidableEq

/-- `key.split(".")`. -/
def keyPath (key : PyStr) : List PyStr := List.splitOn 46 key

/-- `section.field`, with no empty part. -/
def dotted (parts : List PyStr) : Bool := 2 ≤ parts.length && parts.all (· ≠ [])

/-- The first part is an overridable section. -/
def targetsSection (parts : List PyStr) : Bool :=
  parts.head?.any (overridableSections.contains ·)

/-- The key names a field of an overridable section. -/
def wellFormed (key : PyStr) : Bool := dotted (keyPath key) && targetsSection (keyPath key)

/-- An override row: a dotted key and its value. -/
abbrev OverrideRow := PyStr × Json

/-- `_apply_override`. -/
def applyOverride (merged : Dict) (row : OverrideRow) : Except ConfigError Dict := do
  ensure (dotted (keyPath row.1)) (.notDotted row.1)
  ensure (targetsSection (keyPath row.1)) (.notOverridable row.1)
  orThrow (merged.setAt (keyPath row.1) row.2) (.traversesNonMapping row.1)

/-- The loop over one layer's rows. -/
def applyOverrides (merged : Dict) (rows : List OverrideRow) : Except ConfigError Dict :=
  rows.foldlM applyOverride merged

/-! ### The store and the settings -/

/-- `ConfigStorePort`: what the store lists for a project and an agent type. -/
structure ConfigStore where
  getProjectConfig : ProjectId → List OverrideRow
  getAgentTypeConfig : ProjectId → AgentTypeId → List OverrideRow
  getKillswitchOverlay : ProjectId → Option AgentTypeId → List (PyStr × Bool)

/-- The same rows in every layer, listed in another order. -/
structure ConfigStore.Reordered (store store' : ConfigStore) : Prop where
  project : ∀ p, (store'.getProjectConfig p).Perm (store.getProjectConfig p)
  agentType : ∀ p a, (store'.getAgentTypeConfig p a).Perm (store.getAgentTypeConfig p a)
  overlay : store'.getKillswitchOverlay = store.getKillswitchOverlay

/-- The process settings: what `model_dump` writes for each section. It writes every
field. -/
structure Settings where
  dump : PyStr → Dict
  complete : ∀ s fields, sectionModels.lookup s = some fields →
    ∀ f ∈ fields, ((dump s).find f.1).isSome

/-- The working copy `effective` starts from. -/
def Settings.merged (settings : Settings) : Dict :=
  overridableSections.map fun s => (s, .obj (settings.dump s))

/-- The settings of a process that sets nothing. -/
def defaultSettings : Settings where
  dump s := ((sectionModels.lookup s).getD []).map fun f => (f.1, f.2.dump)
  complete s fields hs f hf := by
    rw [← mem_keys_iff, Dict.keys, hs, Option.getD_some, map_map]
    exact mem_map_of_mem hf

/-! ### Resolution -/

/-- The section models and the check across sections. A model looks at the contents of its
dictionary only, not at their order. -/
structure SectionModels (σ : Type) where
  validate : PyStr → Json → Option σ
  consistent : List (PyStr × σ) → Bool
  respects : ∀ s {j j' : Json}, j.doc = j'.doc → validate s j = validate s j'

/-- `EffectiveConfig`: the sections and the kill-switch overlay. -/
structure Effective (σ : Type) where
  sections : List (PyStr × σ)
  killswitchOverlay : List (PyStr × Bool)

/-- The scalar at a path of a configuration. -/
def Effective.leaf (config : Effective Leaves) : List PyStr → Option Scalar
  | [] => none
  | s :: x => (config.sections.lookup s).bind (· x)

/-- The `float` at a path of one of the sections, for comparison with another one. -/
def floatAt (sections : List (PyStr × Leaves)) (name field : String) : PyFloat :=
  match (sections.lookup (str name)).bind (· [str field]) with
  | some (.float x) => x
  | _ => .nan

/-- The section models of `domain/config.py`, with
`_q_seed_must_sit_above_the_archive_floor`. -/
def models (R : ScalarReader) : SectionModels Leaves where
  validate := validate R
  consistent sections :=
    !PyFloat.le (floatAt sections "scoring" "q_start")
      (floatAt sections "lifecycle" "archive_floor")
  respects s _ _ h := validate_congr R s h

/-- The two override layers; the second is skipped without an agent type. -/
def mergeLayers (settings : Settings) (store : ConfigStore) (project : ProjectId)
    (agentType : Option AgentTypeId) : Except ConfigError Dict := do
  let merged ← applyOverrides settings.merged (store.getProjectConfig project)
  match agentType with
  | none => .ok merged
  | some a => applyOverrides merged (store.getAgentTypeConfig project a)

/-- Reading the sections back through their models. -/
def readSections {σ : Type} (V : SectionModels σ) (merged : Dict) :
    Except ConfigError (List (PyStr × σ)) :=
  overridableSections.mapM fun s => do
    let v ← orThrow (V.validate s (merged.get s)) (.invalidSection s)
    .ok (s, v)

/-- `ConfigResolver.effective`. -/
def effective {σ : Type} (V : SectionModels σ) (settings : Settings) (store : ConfigStore)
    (project : ProjectId) (agentType : Option AgentTypeId) :
    Except ConfigError (Effective σ) := do
  let merged ← mergeLayers settings store project agentType
  let sections ← readSections V merged
  let overlay := store.getKillswitchOverlay project agentType
  ensure (V.consistent sections) .invalidCombination
  .ok ⟨sections, overlay⟩

/-! ### One layer -/

def overlayRow (row : OverrideRow) : Row PyStr Json := pathRow (keyPath row.1, row.2)

/-- One override is accepted exactly if its key is well formed and nothing blocks it. -/
theorem applyOverride_toOption (merged : Dict) (row : OverrideRow) :
    (applyOverride merged row).toOption =
      if wellFormed row.1 then merged.setAt (keyPath row.1) row.2 else none := by
  unfold applyOverride wellFormed
  cases dotted (keyPath row.1) with
  | false => rfl
  | true =>
    cases targetsSection (keyPath row.1) with
    | false => rfl
    | true =>
      cases merged.setAt (keyPath row.1) row.2 with
      | none | some m => rfl

variable {rows rows' : List OverrideRow} {d : Doc PyStr Json} {merged m m' : Dict}
  {settings : Settings} {store : ConfigStore} {project : ProjectId}
  {agentType : Option AgentTypeId}

/-- A layer whose keys are all well formed is written path by path. -/
theorem applyOverrides_toOption (merged : Dict) (hkeys : ∀ row ∈ rows, wellFormed row.1) :
    (applyOverrides merged rows).toOption =
      merged.setAll (rows.map fun row => (keyPath row.1, row.2)) := by
  induction rows generalizing merged with
  | nil => rfl
  | cons row rows ih =>
    have hrow := applyOverride_toOption merged row
    rw [if_pos (hkeys row mem_cons_self)] at hrow
    rw [map_cons, Dict.setAll, foldlM_cons, ← hrow]
    rw [applyOverrides, foldlM_cons]
    cases applyOverride merged row with
    | error e => rfl
    | ok m => exact ih m (forall_mem_cons.mp hkeys).2

theorem applyOverrides_malformed (merged : Dict) (h : ∃ row ∈ rows, wellFormed row.1 = false) :
    (applyOverrides merged rows).toOption = none := by
  induction rows generalizing merged with
  | nil =>
    obtain ⟨row, hrow, -⟩ := h
    exact absurd hrow not_mem_nil
  | cons row rows ih =>
    obtain ⟨bad, hbad, hkey⟩ := h
    rw [applyOverrides, foldlM_cons]
    cases hrow : applyOverride merged row with
    | error e => rfl
    | ok m =>
      obtain rfl | hbad := mem_cons.mp hbad
      · have hnone := applyOverride_toOption merged bad
        rw [hrow, hkey] at hnone
        exact nomatch hnone
      · exact ih m ⟨bad, hbad, hkey⟩

/-- A layer that is refused in every order: a key is malformed, or a row is blocked for
good. -/
def LayerRefused (d : Doc PyStr Json) (rows : List OverrideRow) : Prop :=
  (∃ row ∈ rows, wellFormed row.1 = false) ∨ d.Refuses (rows.map overlayRow)

/-- A layer that is written alike in every order: all keys are well formed, the settings
block no row, and of two rows of which one is on the way to the other, the first already
says what the second says. -/
def LayerSettled (d : Doc PyStr Json) (rows : List OverrideRow) : Prop :=
  (∀ row ∈ rows, wellFormed row.1) ∧ d.Settles (rows.map overlayRow)

theorem LayerRefused.perm (h : LayerRefused d rows) (hp : rows'.Perm rows) :
    LayerRefused d rows' := by
  obtain ⟨row, hrow, hkey⟩ | h := h
  · exact .inl ⟨row, hp.mem_iff.mpr hrow, hkey⟩
  · exact .inr (h.perm (hp.map _))

theorem LayerSettled.perm (h : LayerSettled d rows) (hp : rows'.Perm rows) : LayerSettled d rows' :=
  ⟨fun row hrow => h.1 row (hp.mem_iff.mp hrow), h.2.perm (hp.map _)⟩

variable {key : PyStr}

theorem keyPath_ne_nil (h : wellFormed key) : keyPath key ≠ [] := by
  intro hnil
  simp [wellFormed, dotted, hnil] at h

/-- The walks of a well-formed layer, as rows laid over a document. -/
theorem layer_isSome (merged : Dict) (hkeys : ∀ row ∈ rows, wellFormed row.1) :
    (applyOverrides merged rows).toOption.isSome ↔
      (Json.obj merged).doc.Accepts (rows.map overlayRow) := by
  rw [applyOverrides_toOption merged hkeys, Dict.setAll_isSome, map_map]
  · rfl
  · intro row hrow
    obtain ⟨r, hr, rfl⟩ := mem_map.mp hrow
    exact keyPath_ne_nil (hkeys r hr)

variable {merged' : Dict}

theorem layer_doc (h : applyOverrides merged rows = .ok merged') :
    (∀ row ∈ rows, wellFormed row.1) ∧
      (Json.obj merged').doc = (Json.obj merged).doc.putAll (rows.map overlayRow) := by
  have hkeys : ∀ row ∈ rows, wellFormed row.1 := by
    intro row hrow
    by_contra hbad
    have hnone := applyOverrides_malformed merged ⟨row, hrow, by simpa using hbad⟩
    rw [h] at hnone
    exact nomatch hnone
  have hset := applyOverrides_toOption merged hkeys
  rw [h] at hset
  refine ⟨hkeys, ?_⟩
  rw [Dict.doc_setAll hset.symm, map_map]
  rfl

/-- A refused layer raises. -/
theorem LayerRefused.toOption (h : LayerRefused (Json.obj merged).doc rows) :
    (applyOverrides merged rows).toOption = none := by
  by_cases hkeys : ∀ row ∈ rows, wellFormed row.1
  · obtain ⟨row, hrow, hkey⟩ | ⟨r, hr, hadm, hs⟩ := h
    · exact absurd (hkeys row hrow) (by simp [hkey])
    · rw [← Option.not_isSome_iff_eq_none, layer_isSome merged hkeys]
      exact Doc.not_accepts_of_blocked hr hadm hs
  · push Not at hkeys
    obtain ⟨row, hrow, hkey⟩ := hkeys
    exact applyOverrides_malformed merged ⟨row, hrow, by simpa using hkey⟩

theorem LayerSettled.ok (h : LayerSettled (Json.obj merged).doc rows) :
    ∃ merged', applyOverrides merged rows = .ok merged' ∧
      (Json.obj merged').doc = (Json.obj merged).doc.overlaid (rows.map overlayRow) := by
  have hsome := (layer_isSome merged h.1).mpr h.2.accepts
  obtain ⟨merged', hok⟩ := Option.isSome_iff_exists.mp hsome
  have hok := toOption_eq_some.mp hok
  refine ⟨merged', hok, ?_⟩
  rw [(layer_doc hok).2, Doc.putAll_eq_overlaid h.2.2]

/-- The outcome of a layer, up to the order of the members. -/
def layerOutcome (merged : Dict) (rows : List OverrideRow) : Option (Doc PyStr Json) :=
  (applyOverrides merged rows).toOption.map fun m => (Json.obj m).doc

/-- A layer has one outcome in every order exactly if it is refused or settled. -/
theorem layer_orderFree_iff (merged : Dict) (rows : List OverrideRow) :
    (∀ rows', rows'.Perm rows → layerOutcome merged rows' = layerOutcome merged rows) ↔
      LayerRefused (Json.obj merged).doc rows ∨ LayerSettled (Json.obj merged).doc rows := by
  constructor
  · intro hfree
    by_cases hkeys : ∀ row ∈ rows, wellFormed row.1
    · have horder : (Json.obj merged).doc.OrderFree (rows.map overlayRow) := by
        intro l₁ l₂ h₁ h₂ hacc
        obtain ⟨m₁, rfl, hm₁⟩ := (congrFun₂ (eq_map_comp_perm overlayRow) _ _).mpr h₁
        obtain ⟨m₂, rfl, hm₂⟩ := (congrFun₂ (eq_map_comp_perm overlayRow) _ _).mpr h₂
        have hk₁ : ∀ row ∈ m₁, wellFormed row.1 := fun r hr => hkeys r (hm₁.mem_iff.mp hr)
        have hk₂ : ∀ row ∈ m₂, wellFormed row.1 := fun r hr => hkeys r (hm₂.mem_iff.mp hr)
        have hsame : layerOutcome merged m₁ = layerOutcome merged m₂ :=
          (hfree m₁ hm₁).trans (hfree m₂ hm₂).symm
        obtain ⟨d₁, hd₁⟩ := Option.isSome_iff_exists.mp ((layer_isSome merged hk₁).mpr hacc)
        have hd₂ : ∃ d₂, (applyOverrides merged m₂).toOption = some d₂ ∧
            (Json.obj d₂).doc = (Json.obj d₁).doc := by
          rw [layerOutcome, hd₁] at hsame
          exact Option.map_eq_some_iff.mp hsame.symm
        obtain ⟨d₂, hd₂, hdoc⟩ := hd₂
        refine ⟨(layer_isSome merged hk₂).mp (by rw [hd₂]; rfl), ?_⟩
        rw [← (layer_doc (toOption_eq_some.mp hd₁)).2, ← (layer_doc (toOption_eq_some.mp hd₂)).2,
          hdoc]
      obtain h | h := Doc.orderFree_iff.mp horder
      · exact .inl (.inr h)
      · exact .inr ⟨hkeys, h⟩
    · push Not at hkeys
      obtain ⟨row, hrow, hkey⟩ := hkeys
      exact .inl (.inl ⟨row, hrow, by simpa using hkey⟩)
  · rintro (h | h) rows' hp
    · rw [layerOutcome, layerOutcome, h.toOption, (h.perm hp).toOption]
    · obtain ⟨m, hm, hdoc⟩ := h.ok
      obtain ⟨m', hm', hdoc'⟩ := (h.perm hp).ok
      rw [layerOutcome, layerOutcome, hm, hm']
      change some (Json.obj m').doc = some (Json.obj m).doc
      rw [hdoc', hdoc, h.2.overlaid_perm (hp.map _)]

/-! ### Whole resolutions -/

/-- Two working copies with the same contents read back alike. -/
theorem readSections_congr {σ : Type} (V : SectionModels σ)
    (h : (Json.obj m).doc = (Json.obj m').doc) : readSections V m = readSections V m' := by
  have hsec : ∀ s, V.validate s (m.get s) = V.validate s (m'.get s) := by
    intro s
    refine V.respects s ?_
    rw [Dict.get, Dict.get]
    obtain ⟨hm, hm'⟩ | ⟨v, v', hm, hm', hdoc⟩ := map_eq_map_cases (find_doc_congr h s)
    · rw [hm, hm']
    · rw [hm, hm']
      exact hdoc
  simp [readSections, hsec]

/-- The outcome of the layers, up to the order of the members. -/
def mergeOutcome (settings : Settings) (store : ConfigStore) (project : ProjectId)
    (agentType : Option AgentTypeId) : Option (Doc PyStr Json) :=
  (mergeLayers settings store project agentType).toOption.map fun m => (Json.obj m).doc

variable {store' : ConfigStore}

/-- Resolutions whose layers have the same outcome have the same outcome. -/
theorem effective_congr {σ : Type} (V : SectionModels σ)
    (hover : store'.getKillswitchOverlay = store.getKillswitchOverlay)
    (h : mergeOutcome settings store' project agentType =
      mergeOutcome settings store project agentType) :
    (effective V settings store' project agentType).toOption =
      (effective V settings store project agentType).toOption := by
  rw [effective, effective, toOption_bind, toOption_bind, hover]
  obtain ⟨hm', hm⟩ | ⟨m', m, hm', hm, hdoc⟩ := map_eq_map_cases h
  · rw [hm, hm']
  · rw [hm, hm', Option.bind_some, Option.bind_some, readSections_congr V hdoc]

/-- Section models that keep the contents of every section. -/
def docModels : SectionModels (Doc PyStr Json) where
  validate _ j := some j.doc
  consistent _ := true
  respects _ _ _ h := congrArg some h

/-- A working copy: a dictionary for every overridable section, with a value for every
field, and nothing else. -/
structure WorkingCopy (d : Doc PyStr Json) : Prop where
  root : d [] = some .mapping
  sections : ∀ s ∈ overridableSections, d [s] = some .mapping
  fields : ∀ s fields, sectionModels.lookup s = some fields → ∀ f ∈ fields, d [s, f.1] ≠ none
  others : ∀ s x, s ∉ overridableSections → d (s :: x) = none

theorem merged_workingCopy (settings : Settings) : WorkingCopy (Json.obj settings.merged).doc := by
  have hfind : ∀ s, settings.merged.find s =
      if s ∈ overridableSections then some (.obj (settings.dump s)) else none := by
    intro s
    rw [Settings.merged, Dict.find]
    induction overridableSections with
    | nil => rfl
    | cons t l ih =>
      rw [map_cons, find?_cons]
      by_cases hts : t = s
      · subst hts
        simp
      · have hne : ((t, Json.obj (settings.dump t)).1 == s) = false := by simpa using hts
        rw [hne, ih]
        simp [Ne.symm hts]
  refine ⟨rfl, fun s hs => ?_, fun s fields hs f hf => ?_, fun s x hs => ?_⟩
  · rw [Json.doc_obj_cons, hfind, if_pos hs]
    rfl
  · have hmem : s ∈ overridableSections := mem_map_of_mem (mem_of_lookup hs)
    obtain ⟨v, hv⟩ := Option.isSome_iff_exists.mp (settings.complete s fields hs f hf)
    rw [Json.doc_obj_cons, hfind, if_pos hmem, Option.bind_some, Json.doc_obj_cons, hv]
    exact Option.some_ne_none _
  · rw [Json.doc_obj_cons, hfind, if_neg hs]
    rfl

theorem wellFormed_cases (h : wellFormed key) :
    ∃ s k p, keyPath key = s :: k :: p ∧ s ∈ overridableSections := by
  rw [wellFormed, Bool.and_eq_true] at h
  match hp : keyPath key with
  | [] =>
    rw [hp] at h
    exact nomatch h.1
  | [s] =>
    rw [hp] at h
    exact nomatch h.1
  | s :: k :: p =>
    rw [hp] at h
    exact ⟨s, k, p, rfl, by simpa [targetsSection] using h.2⟩

theorem WorkingCopy.put (h : WorkingCopy d) {row : OverrideRow} (hrow : wellFormed row.1) :
    WorkingCopy (d.put (overlayRow row)) := by
  obtain ⟨t, k, p, hpath, ht⟩ := wellFormed_cases hrow
  have hkey : (overlayRow row).key = t :: k :: p := hpath
  refine ⟨Doc.put_of_above _ (by simp [hkey]) nil_prefix, fun s hs => ?_,
    fun s fields hs f hf => ?_, fun s x hs => ?_⟩
  · by_cases hst : s = t
    · subst hst
      exact Doc.put_of_above _ (by simp [hkey]) (by simp [hkey])
    · rw [Doc.put_cons_of_ne _ hkey hst]
      exact h.sections s hs
  · by_cases hcov : (overlayRow row).key <+: [s, f.1]
    · -- a key of at least two parts covers a field only if it is the field's path
      have hlen : (overlayRow row).key.length = [s, f.1].length := by
        refine le_antisymm hcov.length_le ?_
        rw [hkey]
        simp
      rw [Doc.put_of_covered _ hcov, ← hcov.eq_of_length hlen]
      exact Row.holds_key _
    · by_cases habove : [s, f.1] <+: (overlayRow row).key
      · rw [Doc.put_of_above _ hcov habove]
        exact Option.some_ne_none _
      · rw [Doc.put_of_aside _ hcov habove]
        exact h.fields s fields hs f hf
  · have hne : s ≠ t := fun he => hs (he ▸ ht)
    rw [Doc.put_cons_of_ne _ hkey hne]
    exact h.others s x hs

theorem WorkingCopy.layer (h : WorkingCopy (Json.obj merged).doc)
    (hok : applyOverrides merged rows = .ok merged') : WorkingCopy (Json.obj merged').doc := by
  obtain ⟨hkeys, hdoc⟩ := layer_doc hok
  rw [hdoc]
  clear hdoc hok
  generalize (Json.obj merged).doc = d at h
  induction rows generalizing d with
  | nil => exact h
  | cons row rows ih =>
    exact ih (forall_mem_cons.mp hkeys).2 _ (h.put (hkeys row mem_cons_self))

theorem mergeLayers_workingCopy (h : mergeLayers settings store project agentType = .ok m) :
    WorkingCopy (Json.obj m).doc := by
  obtain ⟨m₁, h₁, h⟩ := bind_eq_ok.mp h
  have hfirst := (merged_workingCopy settings).layer h₁
  cases agentType with
  | none =>
    cases h
    exact hfirst
  | some a => exact hfirst.layer h

theorem WorkingCopy.doc_get (h : WorkingCopy (Json.obj m).doc) {s : PyStr}
    (hs : s ∈ overridableSections) (x : List PyStr) :
    (Json.obj m).doc (s :: x) = (m.get s).doc x := by
  have hsec := h.sections s hs
  rw [Json.doc_obj_cons] at hsec ⊢
  rw [Dict.get]
  cases hf : m.find s with
  | none =>
    rw [hf] at hsec
    cases hsec
  | some v => rfl

theorem WorkingCopy.ext (h : WorkingCopy (Json.obj m).doc) (h' : WorkingCopy (Json.obj m').doc)
    (hsec : ∀ s ∈ overridableSections, (m.get s).doc = (m'.get s).doc) :
    (Json.obj m).doc = (Json.obj m').doc := by
  funext x
  cases x with
  | nil => rw [h.root, h'.root]
  | cons s x =>
    by_cases hs : s ∈ overridableSections
    · rw [h.doc_get hs, h'.doc_get hs, hsec s hs]
    · rw [h.others s x hs, h'.others s x hs]

theorem effective_docModels (settings : Settings) (store : ConfigStore) (project : ProjectId)
    (agentType : Option AgentTypeId) :
    (effective docModels settings store project agentType).toOption =
      (mergeLayers settings store project agentType).toOption.map fun m =>
        ⟨overridableSections.map fun s => (s, (m.get s).doc),
          store.getKillswitchOverlay project agentType⟩ := by
  unfold effective
  cases mergeLayers settings store project agentType with
  | error e => rfl
  | ok m =>
    rfl

theorem mergeOutcome_of_docModels
    (h : (effective docModels settings store' project agentType).toOption =
      (effective docModels settings store project agentType).toOption) :
    mergeOutcome settings store' project agentType =
      mergeOutcome settings store project agentType := by
  rw [effective_docModels, effective_docModels] at h
  unfold mergeOutcome
  obtain ⟨hm', hm⟩ | ⟨m', m, hm', hm, hsame⟩ := map_eq_map_cases h
  · rw [hm, hm']
  · have hsec : (overridableSections.map fun s => (s, (m'.get s).doc)) =
        overridableSections.map fun s => (s, (m.get s).doc) := congrArg Effective.sections hsame
    rw [hm, hm']
    refine congrArg some ?_
    refine (mergeLayers_workingCopy (toOption_eq_some.mp hm')).ext
      (mergeLayers_workingCopy (toOption_eq_some.mp hm)) fun s hs => ?_
    simpa using map_inj_left.mp hsec s hs

/-- The rows that a call reads settle its configuration: the project layer is refused whatever
the order, or it is settled over the process settings, and so is, or refused, the layer of the
call's agent type over the settings with the project's rows laid over them. -/
def RowsSettle (settings : Settings) (store : ConfigStore) (project : ProjectId)
    (agentType : Option AgentTypeId) : Prop :=
  let process := (Json.obj settings.merged).doc
  let rows := store.getProjectConfig project
  let withProject := process.overlaid (rows.map overlayRow)
  LayerRefused process rows ∨
    LayerSettled process rows ∧ ∀ a ∈ agentType,
      LayerRefused withProject (store.getAgentTypeConfig project a) ∨
        LayerSettled withProject (store.getAgentTypeConfig project a)

/-- Without an agent type the outcome is the project layer's. -/
theorem mergeOutcome_none (settings : Settings) (store : ConfigStore) (project : ProjectId) :
    mergeOutcome settings store project none =
      layerOutcome settings.merged (store.getProjectConfig project) := by
  unfold mergeOutcome mergeLayers layerOutcome
  cases applyOverrides settings.merged (store.getProjectConfig project) with
  | error e | ok m => rfl

/-- With an agent type and a project layer that is written, the outcome is the agent type's
layer's. -/
theorem mergeOutcome_some
    (h : applyOverrides settings.merged (store.getProjectConfig project) = .ok m)
    (a : AgentTypeId) :
    mergeOutcome settings store project (some a) =
      layerOutcome m (store.getAgentTypeConfig project a) := by
  unfold mergeOutcome mergeLayers layerOutcome
  rw [h]
  rfl

theorem layerOutcome_congr (h : (Json.obj m).doc = (Json.obj m').doc) (rows : List OverrideRow) :
    layerOutcome m rows = layerOutcome m' rows := by
  by_cases hkeys : ∀ row ∈ rows, wellFormed row.1
  · have hsome := layer_isSome m hkeys
    have hsome' := layer_isSome m' hkeys
    rw [h, ← hsome'] at hsome
    unfold layerOutcome
    cases hm : applyOverrides m rows with
    | error e =>
      cases hm' : applyOverrides m' rows with
      | error e' => rfl
      | ok d' =>
        rw [hm, hm'] at hsome
        exact absurd (hsome.mpr rfl) (by simp [Except.toOption])
    | ok d =>
      cases hm' : applyOverrides m' rows with
      | error e' =>
        rw [hm, hm'] at hsome
        exact absurd (hsome.mp rfl) (by simp [Except.toOption])
      | ok d' =>
        change some (Json.obj d).doc = some (Json.obj d').doc
        rw [(layer_doc hm).2, (layer_doc hm').2, h]
  · push Not at hkeys
    obtain ⟨row, hrow, hkey⟩ := hkeys
    have hbad : ∃ row ∈ rows, wellFormed row.1 = false := ⟨row, hrow, by simpa using hkey⟩
    rw [layerOutcome, layerOutcome, applyOverrides_malformed m hbad,
      applyOverrides_malformed m' hbad]

/-- The store with the rows of one project's layer in another order. -/
def ConfigStore.withProjectConfig (store : ConfigStore) (project : ProjectId)
    (rows : List OverrideRow) : ConfigStore :=
  { store with getProjectConfig := fun p => if p = project then rows else store.getProjectConfig p }

/-- The store with the rows of one agent type's layer in another order. -/
def ConfigStore.withAgentTypeConfig (store : ConfigStore) (project : ProjectId)
    (agentType : AgentTypeId) (rows : List OverrideRow) : ConfigStore :=
  { store with
    getAgentTypeConfig := fun p a =>
      if p = project ∧ a = agentType then rows else store.getAgentTypeConfig p a }

theorem reordered_withProjectConfig (h : rows.Perm (store.getProjectConfig project)) :
    store.Reordered (store.withProjectConfig project rows) := by
  refine ⟨fun p => ?_, fun p a => List.Perm.refl _, rfl⟩
  simp only [ConfigStore.withProjectConfig]
  split
  · rename_i hp
    rw [hp]
    exact h
  · exact List.Perm.refl _

theorem reordered_withAgentTypeConfig {agentType : AgentTypeId}
    (h : rows.Perm (store.getAgentTypeConfig project agentType)) :
    store.Reordered (store.withAgentTypeConfig project agentType rows) := by
  refine ⟨fun p => List.Perm.refl _, fun p a => ?_, rfl⟩
  simp only [ConfigStore.withAgentTypeConfig]
  split
  · rename_i hp
    rw [hp.1, hp.2]
    exact h
  · exact List.Perm.refl _

/-- Rows that settle a call's configuration give its layers one outcome, however they are
listed. -/
theorem mergeOutcome_reordered (hset : RowsSettle settings store project agentType)
    (hre : store.Reordered store') :
    mergeOutcome settings store' project agentType =
      mergeOutcome settings store project agentType := by
  obtain href | ⟨hset, hagent⟩ := hset
  · have hnone := href.toOption
    have hnone' := (href.perm (hre.project project)).toOption
    unfold mergeOutcome mergeLayers
    rw [toOption_bind, toOption_bind, hnone, hnone']
    rfl
  · obtain ⟨m, hm, hdoc⟩ := hset.ok
    obtain ⟨m', hm', hdoc'⟩ := (hset.perm (hre.project project)).ok
    have hsame : (Json.obj m').doc = (Json.obj m).doc := by
      rw [hdoc, hdoc', hset.2.overlaid_perm ((hre.project project).map _)]
    cases agentType with
    | none =>
      rw [mergeOutcome_none, mergeOutcome_none, layerOutcome, layerOutcome, hm, hm']
      exact congrArg some hsame
    | some a =>
      rw [mergeOutcome_some hm, mergeOutcome_some hm', layerOutcome_congr hsame]
      have ha := hagent a rfl
      rw [← hdoc] at ha
      exact (layer_orderFree_iff m _).mpr ha _ (hre.agentType project a)

/-- Layers that have one outcome for every listing, with every agent type and without, have
rows that settle the configuration of every call. The project layer is read off the call
without an agent type: an agent type's own rows may hide a conflict of the project's. -/
theorem rowsSettle_of_mergeOutcome
    (hfree : ∀ store', store.Reordered store' → ∀ agentType,
      mergeOutcome settings store' project agentType =
        mergeOutcome settings store project agentType) (agentType : Option AgentTypeId) :
    RowsSettle settings store project agentType := by
  have hproject := (layer_orderFree_iff settings.merged (store.getProjectConfig project)).mp
    fun rows' hp => by
      have h := hfree _ (reordered_withProjectConfig hp) none
      rw [mergeOutcome_none, mergeOutcome_none] at h
      simpa [ConfigStore.withProjectConfig] using h
  refine hproject.imp_right fun hset => ⟨hset, fun a _ => ?_⟩
  obtain ⟨m, hm, hdoc⟩ := hset.ok
  rw [← hdoc]
  refine (layer_orderFree_iff m (store.getAgentTypeConfig project a)).mp fun rows' hp => ?_
  have h := hfree _ (reordered_withAgentTypeConfig hp) (some a)
  have hm' : applyOverrides settings.merged
      ((store.withAgentTypeConfig project a rows').getProjectConfig project) = .ok m := hm
  rw [mergeOutcome_some hm, mergeOutcome_some hm'] at h
  simpa [ConfigStore.withAgentTypeConfig] using h

/-- **When the order of the rows makes no difference.** Whatever the section models, for
every agent type or none, every order in which the store may list a project's override rows
is refused or gives the same configuration, exactly if the rows that each call reads settle
its configuration. -/
theorem effective_orderFree_iff (settings : Settings) (store : ConfigStore) (project : ProjectId) :
    (∀ store', store.Reordered store' → ∀ (agentType : Option AgentTypeId) (σ : Type)
      (V : SectionModels σ),
      (effective V settings store' project agentType).toOption =
        (effective V settings store project agentType).toOption) ↔
      ∀ agentType, RowsSettle settings store project agentType := by
  constructor
  · intro h
    exact rowsSettle_of_mergeOutcome fun store' hre agentType =>
      mergeOutcome_of_docModels (h store' hre agentType _ docModels)
  · intro h store' hre agentType σ V
    exact effective_congr V hre.overlay (mergeOutcome_reordered (h agentType) hre)

/-- Under the models of `domain/config.py`, a call whose own rows settle its configuration does
not depend on how the store lists them. The rows of the other agent types, which the call does
not read, may conflict. -/
theorem effective_models_reordered (R : ScalarReader)
    (hset : RowsSettle settings store project agentType) (hre : store.Reordered store') :
    (effective (models R) settings store' project agentType).toOption =
      (effective (models R) settings store project agentType).toOption :=
  effective_congr (models R) hre.overlay (mergeOutcome_reordered hset hre)

/-- A store with one project layer. -/
def projectListing (rows : List OverrideRow) : ConfigStore :=
  ⟨fun _ => rows, fun _ _ => [], fun _ _ => []⟩

theorem projectListing_reordered (h : rows'.Perm rows) :
    (projectListing rows).Reordered (projectListing rows') :=
  ⟨fun _ => h, fun _ _ => List.Perm.refl _, rfl⟩

def slotCapRows : List OverrideRow :=
  [(str "budget.slot_caps", .obj [(str "fact", .int 10)]),
    (str "budget.slot_caps.fact", .int 20)]

/-- The cap of facts that the default settings and a project layer resolve to. -/
def resolvedFactCap (rows : List OverrideRow) : Option Scalar :=
  (effective (models strictReader) defaultSettings (projectListing rows) ⟨⟨1⟩⟩ none).toOption.bind
    (·.leaf [str "budget", str "slot_caps", str "fact"])

/-- The order in which the store lists two rows decides which of them counts. -/
theorem effective_order_matters :
    (projectListing slotCapRows).Reordered (projectListing slotCapRows.reverse) ∧
      resolvedFactCap slotCapRows = some (.int 20) ∧
      resolvedFactCap slotCapRows.reverse = some (.int 10) := by
  refine ⟨projectListing_reordered (reverse_perm _), ?_, ?_⟩
  · decide +kernel
  · decide +kernel

end Tracebed.Config
