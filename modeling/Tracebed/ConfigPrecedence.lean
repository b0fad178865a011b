import Tracebed.ConfigResolver

/-!
# Which Layer a Setting Comes From

The override rows live in two tables, keyed by project and by project and agent type;
`ConfigTables.store` is what `Repo` reads from them. If no row's key lies on the way to another
row's, every leaf of the resolved configuration is read from one place: the agent type's row that
covers it, else the project's, else the process settings (`effective_precedence`).

A row that covers a whole nested model replaces it, so a leaf that the row's value leaves out
takes the model's default and not the process setting (`admission_row_resets_limits`).
-/

open Py Overlay Fallible List

namespace Tracebed.Config

/-! ### The tables -/

/-- `project_config`, `agent_type_config` and `killswitch_state`, with the primary keys of
the first two, and which projects an erasure leaves readable. -/
structure ConfigTables where
  projectConfig : List (ProjectId × OverrideRow)
  agentTypeConfig : List (ProjectId × AgentTypeId × OverrideRow)
  killswitchState : List (ProjectId × Option AgentTypeId × PyStr × Bool)
  readable : ProjectId → Bool
  projectKey : (projectConfig.map fun r => (r.1, r.2.1)).Nodup
  agentTypeKey : (agentTypeConfig.map fun r => (r.1, r.2.1, r.2.2.1)).Nodup

/-- `overlay[mem_type] = overlay.get(mem_type, False) or disabled`. -/
def orInto : List (PyStr × Bool) → PyStr × Bool → List (PyStr × Bool)
  | [], e => [e]
  | b :: rest, e => if b.1 = e.1 then (b.1, b.2 || e.2) :: rest else b :: orInto rest e

variable (t : ConfigTables)

/-- `get_project_config`, `get_agent_type_config` and `get_killswitch_overlay`. -/
def ConfigTables.store : ConfigStore where
  getProjectConfig project :=
    (t.projectConfig.filter fun r => r.1 = project ∧ t.readable project).map (·.2)
  getAgentTypeConfig project agentType :=
    (t.agentTypeConfig.filter fun r =>
      r.1 = project ∧ r.2.1 = agentType ∧ t.readable project).map (·.2.2)
  getKillswitchOverlay project agentType :=
    ((t.killswitchState.filter fun r =>
      r.1 = project ∧ (r.2.1 = none ∨ r.2.1 = agentType)).map (·.2.2)).foldl orInto []

/-- The rows of one project. -/
structure ConfigTables.SameProject (t t' : ConfigTables) (project : ProjectId) : Prop where
  projectConfig : t'.projectConfig.filter (·.1 = project) = t.projectConfig.filter (·.1 = project)
  agentTypeConfig :
    t'.agentTypeConfig.filter (·.1 = project) = t.agentTypeConfig.filter (·.1 = project)
  killswitchState :
    t'.killswitchState.filter (·.1 = project) = t.killswitchState.filter (·.1 = project)
  readable : t'.readable project = t.readable project

/-- The rows a resolution writes: the project's, then the agent type's. -/
def ConfigStore.rows (store : ConfigStore) (project : ProjectId)
    (agentType : Option AgentTypeId) : List OverrideRow :=
  store.getProjectConfig project ++
    (agentType.map fun a => store.getAgentTypeConfig project a).getD []

/-- No row's key lies on the way to another row's key. -/
def Unnested (rows : List OverrideRow) : Prop :=
  ∀ r ∈ rows, ∀ s ∈ rows, keyPath r.1 <+: keyPath s.1 → keyPath r.1 = keyPath s.1

/-! ### Where a leaf comes from -/

def FieldType.leaf : FieldType → List PyStr → Option LeafType
  | .scalar t, [] => some t
  | .dict kind _, [_] => some ⟨kind, none, {}⟩
  | .model fields _, [k] => fields.lookup k
  | _, _ => none

/-- The type of the leaf at a path, by the section models. -/
def leafType : List PyStr → Option LeafType
  | s :: f :: x => ((sectionModels.lookup s).bind (·.lookup f)).bind (·.leaf x)
  | _ => none

/-- What a layer holds at a path that one of its rows covers. -/
def said (rows : List OverrideRow) (path : List PyStr) : Option (Option Json) :=
  (rows.find? fun row => keyPath row.1 <+: path).map fun row =>
    row.2.atPath (path.drop (keyPath row.1).length)

/-- What the layers hold at a path: the agent type's row that covers it, else the project's,
else the process settings. -/
def source (settings : Settings) (store : ConfigStore) (project : ProjectId)
    (agentType : Option AgentTypeId) (path : List PyStr) : Option Json :=
  match agentType.bind fun a => said (store.getAgentTypeConfig project a) path with
  | some value => value
  | none =>
    match said (store.getProjectConfig project) path with
    | some value => value
    | none => (Json.obj settings.merged).atPath path

/-! ### Rows of a layer -/

theorem keyPath_injective : Function.Injective keyPath := by
  intro a b h
  calc a = [46].intercalate (keyPath a) := (intercalate_splitOn 46).symm
    _ = [46].intercalate (keyPath b) := by rw [h]
    _ = b := intercalate_splitOn 46

variable {rows : List OverrideRow} {m : Dict} {l : Leaves} {R : ScalarReader} {project : ProjectId}

/-- Unnested rows with distinct keys agree where they meet, since they do not meet. -/
theorem Unnested.absorbs (h : Unnested rows) (hkeys : (rows.map Prod.fst).Nodup) :
    ∀ r ∈ rows.map overlayRow, ∀ s ∈ rows.map overlayRow, r.Absorbs s := by
  intro r hr s hs hrs x _
  obtain ⟨r, hr', rfl⟩ := mem_map.mp hr
  obtain ⟨s, hs', rfl⟩ := mem_map.mp hs
  have hkey : r.1 = s.1 := keyPath_injective (h r hr' s hs' hrs)
  rw [inj_on_of_nodup_map hkeys hr' hs' hkey]

/-- What is laid over a document is what the layer says where a row covers the path; below
no row and on the way to none, the document is kept. -/
theorem overlaid_said {d : Doc PyStr Json} {path : List PyStr} :
    d.overlaid (rows.map overlayRow) path =
      match said rows path with
      | some value => value.map Json.shape
      | none => if ∃ row ∈ rows, path <+: keyPath row.1 then some .mapping else d path := by
  rw [Doc.overlaid, find?_map, said]
  have hfun : ((fun r : Row PyStr Json => decide (r.key <+: path)) ∘ overlayRow) =
      fun row : OverrideRow => decide (keyPath row.1 <+: path) := rfl
  rw [hfun]
  cases rows.find? fun row : OverrideRow => decide (keyPath row.1 <+: path) with
  | some row => rfl
  | none =>
    simp only [any_map, any_eq_true, Function.comp_apply, decide_eq_true_eq]
    rfl

/-! ### Reading a section back -/

variable {β : Type}

theorem lookup_map {γ : Type} (l : List (PyStr × β)) (g : β → γ) (k : PyStr) :
    (l.map fun f => (f.1, g f.2)).lookup k = (l.lookup k).map g := by
  induction l with
  | nil => rfl
  | cons f l ih =>
    rw [map_cons, lookup_cons, lookup_cons, ih]
    cases k == f.1 <;> rfl

theorem readRecord_spec {fields : List (PyStr × FieldReader)} (h : readRecord fields m = some l) :
    l [] = none ∧
      (∀ k x, l (k :: x) = (fields.lookup k).bind fun read => (read (m.find k)).bind (· x)) ∧
      ∀ k read, fields.lookup k = some read → (read (m.find k)).isSome := by
  unfold readRecord at h
  split at h
  · rename_i htest
    cases h
    refine ⟨rfl, fun k x => rfl, fun k read hl => ?_⟩
    have hall := all_eq_true.mp (Bool.and_eq_true_iff.mp htest).2
    exact hall (k, read) (mem_of_lookup hl)
  · cases h

/-- Reading a leaf from a value: its scalar, and that the value is no dictionary. -/
def ReadAt (R : ScalarReader) (t : Option LeafType) (value : Option Json) (s : Option Scalar) :
    Prop :=
  s = (t.bind fun t => t.read R value) ∧ ∀ u, t = some u → ∀ m, value ≠ some (.obj m)

theorem readAt_none (R : ScalarReader) (value : Option Json) : ReadAt R none value none :=
  ⟨rfl, nofun⟩

theorem readAt_some {t : LeafType} {value : Option Json} (h : (t.read R value).isSome) :
    ReadAt R (some t) value (t.read R value) := by
  refine ⟨rfl, ?_⟩
  rintro u - m rfl
  rw [leafRead_obj] at h
  exact nomatch h

theorem fieldRead_leaf {t : FieldType} {v : Json} (h : t.read R (some v) = some l)
    (x : List PyStr) : ReadAt R (t.leaf x) (v.atPath x) (l x) := by
  cases t with
  | scalar t =>
    obtain ⟨s, hs, rfl⟩ := Option.map_eq_some_iff.mp h
    cases x with
    | nil =>
      have hsome : (t.read R (some v)).isSome := by
        rw [hs]
        rfl
      have hleaf := readAt_some hsome
      rw [hs] at hleaf
      exact hleaf
    | cons k x => exact readAt_none R _
  | dict kind default =>
    cases v with
    | obj m =>
      rw [FieldType.read, Option.getD_some] at h
      simp only [readDict] at h
      split at h
      · rename_i htest
        cases h
        rcases x with _ | ⟨k, _ | ⟨k', x⟩⟩
        · exact readAt_none R _
        · rw [Json.atPath_singleton]
          cases hk : Dict.find m k with
          | none => exact ⟨by simp [FieldType.leaf, hk], by simp⟩
          | some w =>
            have hread := keys_all_iff.mp htest k (by rw [hk]; rfl)
            rw [← hk]
            exact readAt_some hread
        · exact readAt_none R _
      · cases h
    | _ => cases h
  | model fields check =>
    cases v with
    | obj m =>
      obtain ⟨hrec, -⟩ := Option.filter_eq_some_iff.mp h
      obtain ⟨hnil, hcons, hread⟩ := readRecord_spec hrec
      cases x with
      | nil =>
        rw [hnil]
        exact readAt_none R _
      | cons k x =>
        rw [hcons, lookup_map]
        cases hl : fields.lookup k with
        | none =>
          cases x with
          | nil =>
            rw [FieldType.leaf, hl]
            exact readAt_none R _
          | cons k' x => exact readAt_none R _
        | some t =>
          have hk := hread k (readScalar R t) (by rw [lookup_map, hl]; rfl)
          rw [readScalar, Option.isSome_map] at hk
          obtain ⟨s, hs⟩ := Option.isSome_iff_exists.mp hk
          rw [Option.map_some, Option.bind_some, readScalar, hs]
          cases x with
          | nil =>
            have hleaf := readAt_some hk
            rw [hs] at hleaf
            rw [FieldType.leaf, hl, Json.atPath_singleton]
            exact hleaf
          | cons k' x => exact readAt_none R _
    | _ => cases h

/-- A section that is read has the leaves its dictionary holds, if the dictionary has every
field. -/
theorem validate_leaf {name : PyStr} (h : validate R name (.obj m) = some l)
    (hfull : ∀ fields, sectionModels.lookup name = some fields →
      ∀ f ∈ fields, (m.find f.1).isSome) (x : List PyStr) :
    ReadAt R (leafType (name :: x)) ((Json.obj m).atPath x) (l x) := by
  obtain ⟨fields, hs, hrec⟩ := Option.bind_eq_some_iff.mp h
  obtain ⟨hnil, hcons, hread⟩ := readRecord_spec hrec
  cases x with
  | nil =>
    rw [hnil]
    exact readAt_none R _
  | cons f x =>
    rw [hcons, lookup_map, leafType, hs, Option.bind_some]
    cases hl : fields.lookup f with
    | none => exact readAt_none R _
    | some t =>
      obtain ⟨v, hv⟩ := Option.isSome_iff_exists.mp (hfull fields hs _ (mem_of_lookup hl))
      have hf := hread f (t.read R) (by rw [lookup_map, hl]; rfl)
      rw [hv] at hf
      obtain ⟨l', hl'⟩ := Option.isSome_iff_exists.mp hf
      simp only [Option.map_some, Option.bind_some, hv, hl', Json.atPath_obj_cons]
      exact fieldRead_leaf hl' x

theorem readSections_spec {σ : Type} {V : SectionModels σ} {sections : List (PyStr × σ)}
    (h : readSections V m = .ok sections) :
    sections.map Prod.fst = overridableSections ∧
      ∀ s ∈ overridableSections, ∃ v, sections.lookup s = some v ∧
        V.validate s (m.get s) = some v := by
  have hread := mapM_eq_ok.mp h
  clear h
  generalize overridableSections = names at hread
  induction hread with
  | nil => exact ⟨rfl, fun s hs => absurd hs not_mem_nil⟩
  | @cons t e names rest ht _ ih =>
    obtain ⟨v, hv, he⟩ := bind_eq_ok.mp ht
    cases he
    refine ⟨congrArg (t :: ·) ih.1, fun s hs => ?_⟩
    by_cases hst : s = t
    · subst hst
      exact ⟨v, by simp, orThrow_eq_ok.mp hv⟩
    · obtain ⟨w, hw, hval⟩ := ih.2 s ((mem_cons.mp hs).resolve_left hst)
      have hne : (s == t) = false := by simpa using hst
      exact ⟨w, by rw [lookup_cons, hne]; exact hw, hval⟩

theorem lookup_eq_none {l : List (PyStr × β)} {k : PyStr} (h : k ∉ l.map Prod.fst) :
    l.lookup k = none := by
  cases hl : l.lookup k with
  | none => rfl
  | some b => exact absurd (mem_map_of_mem (mem_of_lookup hl)) h

/-! ### Precedence -/

/-- After a layer of unnested rows every path is on the way to a row, or holds what the layer
says about it, or what it held before. -/
theorem layer_source {merged merged' : Dict} (h : applyOverrides merged rows = .ok merged')
    (hun : Unnested rows) (hkeys : (rows.map Prod.fst).Nodup) (x : List PyStr) :
    (Json.obj merged').doc x = some .mapping ∨
      (Json.obj merged').doc x =
        match said rows x with
        | some value => value.map Json.shape
        | none => (Json.obj merged).doc x := by
  rw [(layer_doc h).2, Doc.putAll_eq_overlaid (hun.absorbs hkeys), overlaid_said]
  cases said rows x with
  | some value => exact .inr rfl
  | none =>
    dsimp only
    split
    · exact .inl rfl
    · exact .inr rfl

theorem mergeLayers_source {settings : Settings} {store : ConfigStore}
    {agentType : Option AgentTypeId} (h : mergeLayers settings store project agentType = .ok m)
    (hun : Unnested (store.rows project agentType))
    (hproject : ((store.getProjectConfig project).map Prod.fst).Nodup)
    (hagent : ∀ a, ((store.getAgentTypeConfig project a).map Prod.fst).Nodup) (x : List PyStr) :
    (Json.obj m).doc x = some .mapping ∨
      (Json.obj m).doc x = (source settings store project agentType x).map Json.shape := by
  obtain ⟨m₁, h₁, h₂⟩ := bind_eq_ok.mp h
  have hunp : Unnested (store.getProjectConfig project) := fun r hr s hs =>
    hun r (mem_append_left _ hr) s (mem_append_left _ hs)
  have hlayer₁ := layer_source h₁ hunp hproject x
  have hbase : ∀ v : Option (Option Json),
      (match v with
        | some value => value.map Json.shape
        | none => (Json.obj settings.merged).doc x) =
      (match v with
        | some value => value
        | none => (Json.obj settings.merged).atPath x).map Json.shape := by
    rintro (_ | v) <;> rfl
  rw [hbase] at hlayer₁
  cases agentType with
  | none =>
    cases h₂
    exact hlayer₁
  | some a =>
    have huna : Unnested (store.getAgentTypeConfig project a) := fun r hr s hs =>
      hun r (mem_append_right _ hr) s (mem_append_right _ hs)
    have hlayer₂ := layer_source h₂ huna (hagent a) x
    unfold source
    rw [Option.bind_some]
    cases hsaid : said (store.getAgentTypeConfig project a) x with
    | some value =>
      rw [hsaid] at hlayer₂
      exact hlayer₂
    | none =>
      rw [hsaid] at hlayer₂
      obtain hmap | hdoc := hlayer₂
      · exact .inl hmap
      · rw [hdoc]
        exact hlayer₁

theorem leaf_of_workingCopy (hm : WorkingCopy (Json.obj m).doc) {sections : List (PyStr × Leaves)}
    (h : readSections (models R) m = .ok sections) (overlay : List (PyStr × Bool))
    (path : List PyStr) :
    ReadAt R (leafType path) ((Json.obj m).atPath path)
      (Effective.leaf ⟨sections, overlay⟩ path) := by
  obtain ⟨hnames, hsec⟩ := readSections_spec h
  cases path with
  | nil => exact readAt_none R _
  | cons s x =>
    by_cases hs : s ∈ overridableSections
    · obtain ⟨l, hl, hval⟩ := hsec s hs
      -- a section of a working copy is a dictionary with every field
      have hmap := hm.sections s hs
      rw [Json.doc_obj_cons] at hmap
      obtain ⟨v, hv, hshape⟩ := Option.bind_eq_some_iff.mp hmap
      cases v with
      | obj ms =>
        have hget : m.get s = .obj ms := by
          rw [Dict.get, hv]
          rfl
        have hfull : ∀ fields, sectionModels.lookup s = some fields →
            ∀ f ∈ fields, (Dict.find ms f.1).isSome := by
          intro fields hfields f hf
          have hsome := hm.fields s fields hfields f hf
          rw [Json.doc_obj_cons, hv, Option.bind_some, Json.doc_obj_cons] at hsome
          rw [Option.isSome_iff_ne_none]
          intro hnone
          rw [hnone] at hsome
          exact hsome rfl
        rw [hget] at hval
        rw [Effective.leaf, hl, Json.atPath_obj_cons, hv]
        exact validate_leaf hval hfull x
      | _ => cases hshape
    · have hlookup : sections.lookup s = none := lookup_eq_none (hnames ▸ hs)
      have hleaf : leafType (s :: x) = none := by
        cases x with
        | nil => rfl
        | cons f x =>
          have hnone : sectionModels.lookup s = none := lookup_eq_none hs
          rw [leafType, hnone]
          rfl
      rw [Effective.leaf, hlookup, hleaf]
      exact readAt_none R _

theorem nodup_map_of_key {γ δ : Type} {l : List β} {f : β → γ} {g : β → δ} (hf : (l.map f).Nodup)
    (hg : ∀ a ∈ l, ∀ b ∈ l, g a = g b → f a = f b) :
    (l.map g).Nodup :=
  (hf.of_map f).map_on fun a ha b hb hab =>
    inj_on_of_nodup_map hf ha hb (hg a ha b hb hab)

/-- The primary key of `project_config` keeps a project's keys apart. -/
theorem getProjectConfig_nodup (project : ProjectId) :
    ((t.store.getProjectConfig project).map Prod.fst).Nodup := by
  simp only [ConfigTables.store, map_map]
  refine nodup_map_of_key (t.projectKey.sublist (filter_sublist.map _)) ?_
  intro a ha b hb hab
  have ha := (mem_filter.mp ha).2
  have hb := (mem_filter.mp hb).2
  simp only [decide_eq_true_eq] at ha hb
  exact Prod.ext (ha.1.trans hb.1.symm) hab

/-- The primary key of `agent_type_config` keeps an agent type's keys apart. -/
theorem getAgentTypeConfig_nodup (project : ProjectId) (agentType : AgentTypeId) :
    ((t.store.getAgentTypeConfig project agentType).map Prod.fst).Nodup := by
  simp only [ConfigTables.store, map_map]
  refine nodup_map_of_key (t.agentTypeKey.sublist (filter_sublist.map _)) ?_
  intro a ha b hb hab
  have ha := (mem_filter.mp ha).2
  have hb := (mem_filter.mp hb).2
  simp only [decide_eq_true_eq] at ha hb
  exact Prod.ext (ha.1.trans hb.1.symm) (Prod.ext (ha.2.1.trans hb.2.1.symm) hab)

theorem filter_congr_project {l l' : List (ProjectId × β)}
    (h : l'.filter (fun r => decide (r.1 = project)) = l.filter (fun r => decide (r.1 = project)))
    (q : ProjectId × β → Prop) [DecidablePred q] :
    l'.filter (fun r => decide (r.1 = project ∧ q r)) =
      l.filter (fun r => decide (r.1 = project ∧ q r)) := by
  have hsplit : ∀ m : List (ProjectId × β), m.filter (fun r => decide (r.1 = project ∧ q r)) =
        (m.filter (fun r => decide (r.1 = project))).filter (fun r => decide (q r)) := by
    intro m
    rw [filter_filter]
    exact filter_congr fun r _ => by rw [Bool.decide_and, Bool.and_comm]
  rw [hsplit, hsplit, h]

theorem store_of_sameProject {t t' : ConfigTables} (h : t.SameProject t' project) :
    t'.store.getProjectConfig project = t.store.getProjectConfig project ∧
      t'.store.getAgentTypeConfig project = t.store.getAgentTypeConfig project ∧
      t'.store.getKillswitchOverlay project = t.store.getKillswitchOverlay project := by
  refine ⟨?_, funext fun a => ?_, funext fun a => ?_⟩
  · simp only [ConfigTables.store, h.readable]
    rw [filter_congr_project h.projectConfig]
  · simp only [ConfigTables.store, h.readable]
    rw [filter_congr_project h.agentTypeConfig]
  · simp only [ConfigTables.store]
    rw [filter_congr_project h.killswitchState]

/-- **Layer precedence.** If no override key lies on the way to another one and `effective`
returns, every leaf is its field's reading of what the agent type's covering row holds
there, else of what the project's covering row holds, else of the process setting; the
kill-switch overlay is the store's, every row targets an overridable section and the
configuration has no other sections, and rows of other projects make no difference. -/
theorem effective_precedence (R : ScalarReader) (settings : Settings) (tables : ConfigTables)
    (project : ProjectId) (agentType : Option AgentTypeId) (config : Effective Leaves)
    (hun : Unnested (tables.store.rows project agentType))
    (h : effective (models R) settings tables.store project agentType = .ok config) :
    (∀ path, config.leaf path = (leafType path).bind fun t =>
        t.read R (source settings tables.store project agentType path)) ∧
      config.killswitchOverlay = tables.store.getKillswitchOverlay project agentType ∧
      config.sections.map Prod.fst = overridableSections ∧
      (∀ row ∈ tables.store.rows project agentType, wellFormed row.1) ∧
      ∀ tables' : ConfigTables, tables.SameProject tables' project →
        effective (models R) settings tables'.store project agentType = .ok config := by
  obtain ⟨m, hmerge, hrest⟩ := bind_eq_ok.mp h
  obtain ⟨sections, hsections, hrest⟩ := bind_eq_ok.mp hrest
  obtain ⟨-, -, hconfig⟩ := bind_eq_ok.mp hrest
  cases hconfig
  refine ⟨fun path => ?_, rfl, (readSections_spec hsections).1, ?_, fun tables' hsame => ?_⟩
  · obtain ⟨hread, hscalar⟩ := leaf_of_workingCopy (mergeLayers_workingCopy hmerge) hsections
      (tables.store.getKillswitchOverlay project agentType) path
    rw [hread]
    cases hleaf : leafType path with
    | none => rfl
    | some t =>
      obtain hmap | hdoc := mergeLayers_source hmerge hun (getProjectConfig_nodup tables project)
        (getAgentTypeConfig_nodup tables project) path
      · -- a leaf is no dictionary, so its path is not on the way to a row
        obtain ⟨v, hv, hshape⟩ := Option.map_eq_some_iff.mp hmap
        cases v with
        | obj v => exact absurd hv (hscalar t hleaf v)
        | _ => cases hshape
      · exact leafRead_shape R t hdoc
  · intro row hrow
    obtain ⟨m₁, h₁, h₂⟩ := bind_eq_ok.mp hmerge
    obtain hrow | hrow := mem_append.mp hrow
    · exact (layer_doc h₁).1 row hrow
    · cases agentType with
      | none => exact absurd hrow not_mem_nil
      | some a => exact (layer_doc h₂).1 row hrow
  · obtain ⟨hp, ha, ho⟩ := store_of_sameProject hsame
    rw [← h]
    unfold effective mergeLayers
    rw [hp, ha, ho]

/-- Two projects' override rows, with a row of an agent type over one of the first. -/
def twoProjects : ConfigTables where
  projectConfig :=
    [(⟨⟨1⟩⟩, str "retrieval.rrf_k", .int 40), (⟨⟨2⟩⟩, str "retrieval.rrf_k", .int 50),
      (⟨⟨1⟩⟩, str "budget.slot_caps.fact", .int 90)]
  agentTypeConfig := [(⟨⟨1⟩⟩, ⟨⟨7⟩⟩, str "retrieval.rrf_k", .int 30)]
  killswitchState := [(⟨⟨1⟩⟩, none, str "lesson", true)]
  readable _ := true
  projectKey := by decide +kernel
  agentTypeKey := by decide +kernel

/-- The agent type's row counts for its key, the project's for its own. -/
theorem effective_precedence_twoProjects :
    ∃ config, effective (models strictReader) defaultSettings twoProjects.store ⟨⟨1⟩⟩
        (some ⟨⟨7⟩⟩) = .ok config ∧
      config.leaf [str "retrieval", str "rrf_k"] = some (.int 30) ∧
      config.leaf [str "budget", str "slot_caps", str "fact"] = some (.int 90) ∧
      config.leaf [str "queue", str "batch_size"] = some (.int 100) := by
  have hsome : (effective (models strictReader) defaultSettings twoProjects.store ⟨⟨1⟩⟩
      (some ⟨⟨7⟩⟩)).toOption.isSome = true := by decide +kernel
  obtain ⟨config, hconfig⟩ := Option.isSome_iff_exists.mp hsome
  have hok := toOption_eq_some.mp hconfig
  have hun : Unnested (twoProjects.store.rows ⟨⟨1⟩⟩ (some ⟨⟨7⟩⟩)) := by
    unfold Unnested
    decide +kernel
  obtain ⟨hleaf, -⟩ := effective_precedence strictReader defaultSettings twoProjects ⟨⟨1⟩⟩
    (some ⟨⟨7⟩⟩) config hun hok
  refine ⟨config, hok, ?_, ?_, ?_⟩
  · rw [hleaf]
    decide +kernel
  · rw [hleaf]
    decide +kernel
  · rw [hleaf]
    decide +kernel

/-- Setting a field keeps the dump of a section complete. -/
theorem isSome_find_set {k k' : PyStr} {v : Json} (h : (m.find k').isSome) :
    ((m.set k v).find k').isSome := by
  by_cases hk : k' = k
  · rw [hk, Dict.find_set_self]
    rfl
  · rwa [Dict.find_set_of_ne _ _ hk]

/-- The settings of a process that lowers `queue.admission.max_batch_items` to 100. -/
def smallBatches : Settings where
  dump s :=
    if s = str "queue" then
      (defaultSettings.dump s).set (str "admission") (.obj
        [(str "max_item_bytes", .int 262144), (str "max_batch_bytes", .int 4194304),
          (str "max_batch_items", .int 100), (str "max_project_depth", .int 10000),
          (str "max_topic_depth", .int 50000), (str "max_global_depth", .int 100000)])
    else defaultSettings.dump s
  complete s fields hs f hf := by
    have hdefault := defaultSettings.complete s fields hs f hf
    split
    · exact isSome_find_set hdefault
    · exact hdefault

def itemSizeRow : OverrideRow :=
  (str "queue.admission", .obj [(str "max_item_bytes", .int 1024)])

/-- The path of the limit on the number of items. -/
def batchItems : List PyStr := [str "queue", str "admission", str "max_batch_items"]

/-- A row for one limit resets the others to their defaults: the resolved limit is neither
an override nor the process setting. -/
theorem admission_row_resets_limits :
    Unnested [itemSizeRow] ∧ keyPath itemSizeRow.1 ≠ batchItems ∧
      LeafType.read strictReader ⟨.int, none, {}⟩
        ((Json.obj smallBatches.merged).atPath batchItems) = some (.int 100) ∧
      (effective (models strictReader) smallBatches (projectListing [itemSizeRow]) ⟨⟨1⟩⟩
        none).toOption.bind (·.leaf batchItems) = some (.int 500) := by
  refine ⟨?_, ?_, ?_, ?_⟩
  · unfold Unnested
    decide +kernel
  · decide +kernel
  · decide +kernel
  · decide +kernel

end Tracebed.Config
