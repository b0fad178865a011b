import Tracebed.Lib.Json
import Tracebed.Lib.Overlay

/-!
# Setting a Path of Nested Dictionaries

`Dict.setAt` writes a value at a path of keys, `node.setdefault(key, {})` at every key but
the last: missing dictionaries are created on the way, and a value that is no dictionary
stops the walk. Seen through `Json.doc`, which forgets the order of the members, this is
putting a row into a document (`Dict.doc_setAt`).
-/

open Overlay Option List

namespace Py

namespace Json

/-- A value from outside: a dictionary, or something that is none. -/
def shape : Json → Shape Json
  | obj _ => .mapping
  | v => .leaf v

def atPath : Json → List PyStr → Option Json
  | j, [] => some j
  | obj m, k :: p => (Dict.find m k).bind (atPath · p)
  | _, _ :: _ => none

variable (j : Json)

/-- What stands at every path of a value. -/
def doc : Doc PyStr Json := fun p => (atPath j p).map shape

@[simp] theorem atPath_nil : atPath j [] = some j := by
  cases j <;> rfl

theorem atPath_obj_cons (m : Dict) (k : PyStr) (p : List PyStr) :
    atPath (obj m) (k :: p) = (Dict.find m k).bind (atPath · p) := rfl

/-- One step down is a lookup. -/
@[simp] theorem atPath_singleton (m : Dict) (k : PyStr) : atPath (obj m) [k] = Dict.find m k := by
  rw [atPath_obj_cons]
  cases Dict.find m k with
  | none => rfl
  | some j => exact atPath_nil j

@[simp] theorem doc_nil : doc j [] = some (shape j) := by
  rfl

theorem doc_obj_cons (m : Dict) (k : PyStr) (p : List PyStr) :
    doc (obj m) (k :: p) = (Dict.find m k).bind (fun j => doc j p) := by
  rw [doc, atPath_obj_cons]
  cases Dict.find m k <;> rfl

/-- Only a dictionary has something below it. -/
theorem doc_cons_of_leaf {j a : Json} (h : shape j = .leaf a) (k : PyStr) (p : List PyStr) :
    doc j (k :: p) = none := by
  cases j <;> first | rfl | cases h

/-- Values lie in dictionaries only. -/
theorem doc_closed : (doc j).Closed := by
  intro x
  induction x generalizing j with
  | nil =>
    intro k h
    rw [doc_nil]
    cases hs : shape j with
    | mapping => rfl
    | leaf a => exact absurd (doc_cons_of_leaf hs k []) h
  | cons y x ih =>
    intro k h
    cases hs : shape j with
    | leaf a => exact absurd (doc_cons_of_leaf hs y (x ++ [k])) h
    | mapping =>
      cases j with
      | obj m =>
        rw [cons_append, doc_obj_cons] at h
        rw [doc_obj_cons]
        cases hf : Dict.find m y with
        | none =>
          rw [hf] at h
          exact absurd rfl h
        | some v =>
          rw [hf] at h
          exact ih v k h
      | _ => cases hs

end Json

/-- A path and the value to be written there, as a row to lay over a document. -/
def pathRow (row : List PyStr × Json) : Row PyStr Json where
  key := row.1
  value := row.2.doc
  rooted := by simp
  closed := row.2.doc_closed

namespace Dict

/-- Write a value at a path, creating the dictionaries on the way. -/
def setAt : Dict → List PyStr → Json → Option Dict
  | _, [], _ => none
  | m, [k], v => some (set m k v)
  | m, k :: k' :: p, v =>
    match (find m k).getD (.obj []) with
    | .obj node => (setAt node (k' :: p) v).map (fun node' => set m k (.obj node'))
    | _ => none

/-- Write the rows one after the other. -/
def setAll (m : Dict) (rows : List (List PyStr × Json)) : Option Dict :=
  rows.foldlM (fun m row => setAt m row.1 row.2) m

variable {p : List PyStr} {m : Dict}

/-- The dictionary found at the first key of a longer path: empty if there is none. -/
theorem doc_node {node : Dict} {k : PyStr} (h : (find m k).getD (.obj []) = .obj node)
    (hp : p ≠ []) : (Json.obj m).doc (k :: p) = (Json.obj node).doc p := by
  rw [Json.doc_obj_cons]
  cases hf : find m k with
  | none =>
    rw [hf] at h
    cases h
    cases p with
    | nil => exact absurd rfl hp
    | cons q p => rfl
  | some v =>
    rw [hf] at h
    cases h
    rfl

/-- The dictionary found at the first key of a longer path has the leaves below that key. -/
theorem doc_node_leaf {node : Dict} {k : PyStr} (h : (find m k).getD (.obj []) = .obj node)
    (x : List PyStr) (a : Json) :
    (Json.obj m).doc (k :: x) = some (.leaf a) ↔ (Json.obj node).doc x = some (.leaf a) := by
  cases x with
  | cons k' x => rw [doc_node h (by simp)]
  | nil =>
    rw [Json.doc_obj_cons]
    cases hf : find m k with
    | none => exact ⟨(nomatch ·), (nomatch ·)⟩
    | some v =>
      rw [hf] at h
      cases h
      exact ⟨(nomatch ·), (nomatch ·)⟩

/-- The walk arrives exactly if no leaf lies on the way. -/
theorem setAt_isSome (hp : p ≠ []) {v : Json} :
    (setAt m p v).isSome ↔ (Json.obj m).doc.Admits p := by
  induction p generalizing m with
  | nil => exact absurd rfl hp
  | cons k p ih =>
    have hroot : ∀ a, (Json.obj m).doc [] ≠ some (.leaf a) := nofun
    rw [Doc.admits_cons, and_iff_right hroot]
    cases p with
    | nil => exact ⟨fun _ y hy hne => absurd (prefix_nil.mp hy) hne, fun _ => rfl⟩
    | cons k' p =>
      rw [setAt]
      split
      · rename_i node hnode
        rw [isSome_map, ih (by simp)]
        exact (Doc.admits_congr (doc_node_leaf hnode)).symm
      · rename_i hnode
        refine ⟨fun h => (Bool.false_ne_true h).elim, fun h => ?_⟩
        -- what stands at the first key is no dictionary, and blocks the way
        cases hf : find m k with
        | none => exact absurd (by rw [hf]; rfl) (hnode [])
        | some w =>
          have hw : ∀ a, (Json.obj m).doc [k] ≠ some (.leaf a) := h [] nil_prefix (by simp)
          rw [Json.doc_obj_cons, hf] at hw
          cases w with
          | obj w => exact absurd (by rw [hf]; rfl) (hnode w)
          | _ => exact absurd rfl (hw _)

/-- What stands at every path after a write. -/
theorem doc_setAt {m' : Dict} {v : Json} (h : setAt m p v = some m') :
    (Json.obj m').doc = (Json.obj m).doc.put (pathRow (p, v)) := by
  induction p generalizing m m' with
  | nil => cases h
  | cons k p ih =>
    -- both writes set the first key; the others keep what they have
    obtain ⟨w, rfl, hw⟩ : ∃ w, m' = set m k w ∧
        w.doc = Doc.put (fun x => (Json.obj m).doc (k :: x)) (pathRow (p, v)) := by
      cases p with
      | nil =>
        cases h
        refine ⟨v, rfl, ?_⟩
        rfl
      | cons k' p =>
        rw [setAt] at h
        split at h
        · rename_i node hnode
          obtain ⟨node', hnode', rfl⟩ := map_eq_some_iff.mp h
          refine ⟨.obj node', rfl, ?_⟩
          rw [ih hnode']
          exact (Doc.put_congr (by simp [pathRow]) (fun x hx => doc_node hnode hx)).symm
        · cases h
    funext x
    cases x with
    | nil => exact (Doc.put_of_above _ (by simp [pathRow]) nil_prefix).symm
    | cons y x =>
      rw [Json.doc_obj_cons]
      by_cases hy : y = k
      · subst hy
        rw [find_set_self, bind_some, hw]
        have hkey : (pathRow (y :: p, v)).key = y :: p := rfl
        exact (Doc.put_cons_self _ hkey x).symm
      · rw [find_set_of_ne _ _ hy, ← Json.doc_obj_cons]
        exact (Doc.put_cons_of_ne _ (r := pathRow (k :: p, v)) rfl hy).symm

variable {rows : List (List PyStr × Json)}

theorem setAll_isSome (hkeys : ∀ row ∈ rows, row.1 ≠ []) :
    (setAll m rows).isSome ↔ (Json.obj m).doc.Accepts (rows.map pathRow) := by
  induction rows generalizing m with
  | nil => exact ⟨fun _ => trivial, fun _ => rfl⟩
  | cons row rows ih =>
    have hrow := setAt_isSome (m := m) (v := row.2) (hkeys row mem_cons_self)
    have hrest : ∀ row ∈ rows, row.1 ≠ [] := fun r hr => hkeys r (mem_cons_of_mem _ hr)
    rw [map_cons, Doc.Accepts]
    cases hset : setAt m row.1 row.2 with
    | none =>
      rw [hset] at hrow
      refine ⟨fun h => ?_, fun h => absurd (hrow.mpr h.1) (by simp)⟩
      rw [setAll, foldlM_cons, hset] at h
      exact (Bool.false_ne_true h).elim
    | some m' =>
      rw [hset] at hrow
      have hadm : (Json.obj m).doc.Admits (pathRow row).key := hrow.mp rfl
      rw [and_iff_right hadm, ← doc_setAt hset, ← ih hrest]
      rw [setAll, foldlM_cons, hset]
      rfl

theorem doc_setAll {m' : Dict} (h : setAll m rows = some m') :
    (Json.obj m').doc = (Json.obj m).doc.putAll (rows.map pathRow) := by
  induction rows generalizing m with
  | nil =>
    cases h
    rfl
  | cons row rows ih =>
    obtain ⟨m₁, hset, hrest⟩ := bind_eq_some_iff.mp h
    rw [ih hrest, doc_setAt hset]
    rfl

end Dict

end Py
