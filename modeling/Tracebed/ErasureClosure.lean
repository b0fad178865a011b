import Tracebed.ErasureCompletion

/-!
# The Memory Closure of a Request

`memoryClosure` enumerates simple paths, level by level, up to 1024 links, behind a probe that
refuses when a path of that length can still be made longer. The edges of its graph are the links
of the project, taken in either direction. A shortest path is simple, so every reachable memory is
met at its distance, and `min(closure_depth)` reads the distance off (`memoryClosure_eq_ok`,
`requestErasure_closure_exact`).
-/

open Py Fallible Table List

namespace Tracebed.Erasure

/-! ### The graph of the links -/

/-- The memories of a project with its links as edges. -/
def memoryGraph (links : List PrimaryRow) : SimpleGraph UUID :=
  SimpleGraph.fromRel fun a b => ∃ link ∈ links, link.memoryIds = [a, b]

variable {links : List PrimaryRow} {seeds : List UUID} {a b m : UUID} {c c' : ClosurePath}

theorem otherEnd_eq_some {link : PrimaryRow} :
    otherEnd a link = some b ↔ link.memoryIds = [a, b] ∨ link.memoryIds = [b, a] := by
  rw [otherEnd]
  split
  · next src dst h =>
    rw [h]
    by_cases hsrc : src = a
    · subst hsrc
      simp only [if_pos, Option.some.injEq, List.cons.injEq, and_true, true_and]
      exact ⟨.inl, fun h => h.elim id fun h => h.2.trans h.1⟩
    · by_cases hdst : dst = a
      · subst hdst
        simp [hsrc]
      · simp [hdst]
  · next h =>
    simp only [reduceCtorEq, false_iff, not_or]
    exact ⟨h a b, h b a⟩

theorem mem_filterMap_otherEnd (hne : a ≠ b) :
    b ∈ links.filterMap (otherEnd a) ↔ (memoryGraph links).Adj a b := by
  simp only [mem_filterMap, otherEnd_eq_some]
  constructor
  · rintro ⟨link, hlink, h | h⟩
    · exact ⟨hne, .inl ⟨link, hlink, h⟩⟩
    · exact ⟨hne, .inr ⟨link, hlink, h⟩⟩
  · rintro ⟨-, ⟨link, hlink, h⟩ | ⟨link, hlink, h⟩⟩
    · exact ⟨link, hlink, .inl h⟩
    · exact ⟨link, hlink, .inr h⟩

theorem ClosurePath.mem_extend (h : c.memoryId ∈ c.path) : c' ∈ c.extend links ↔
    ∃ m, (memoryGraph links).Adj c.memoryId m ∧ m ∉ c.path ∧
      c' = ⟨m, c.closureDepth + 1, c.path ++ [m]⟩ := by
  simp only [ClosurePath.extend, mem_map, mem_filter, decide_eq_true_eq]
  constructor
  · rintro ⟨m, ⟨hm, hnew⟩, rfl⟩
    have hne : c.memoryId ≠ m := fun he => hnew (he ▸ h)
    exact ⟨m, (mem_filterMap_otherEnd hne).mp hm, hnew, rfl⟩
  · rintro ⟨m, hadj, hnew, rfl⟩
    exact ⟨m, ⟨(mem_filterMap_otherEnd hadj.ne).mpr hadj, hnew⟩, rfl⟩

/-! ### Levels of paths -/

/-- The paths with a given number of links. -/
def closureLevel (links : List PrimaryRow) (n : ℕ) (level : List ClosurePath) : List ClosurePath :=
  (fun level => level.flatMap (ClosurePath.extend links))^[n] level

theorem closureLevel_nil (links : List PrimaryRow) (n : ℕ) : closureLevel links n [] = [] :=
  Function.iterate_fixed rfl n

variable {n : ℕ}

/-- The query collects the levels up to its depth. -/
theorem mem_closurePaths_iff {level : List ClosurePath} :
    c ∈ closurePaths links n level ↔ ∃ k ≤ n, c ∈ closureLevel links k level := by
  induction n generalizing level with
  | zero => simp [closurePaths, closureLevel]
  | succ n ih =>
    rw [closurePaths]
    split
    · next hempty =>
      obtain rfl := isEmpty_iff.mp hempty
      simp [closureLevel_nil]
    · rw [mem_append, ih]
      constructor
      · rintro (h | ⟨k, hk, h⟩)
        · exact ⟨0, Nat.zero_le _, h⟩
        · exact ⟨k + 1, Nat.succ_le_succ hk, h⟩
      · rintro ⟨k, hk, h⟩
        cases k with
        | zero => exact .inl h
        | succ k => exact .inr ⟨k, Nat.le_of_succ_le_succ hk, h⟩

/-- The row is a simple path with the given number of links from one of the seeds. -/
def IsPathFrom (links : List PrimaryRow) (seeds : List UUID) (n : ℕ) (c : ClosurePath) : Prop :=
  c.closureDepth = n ∧ ∃ seed ∈ seeds, ∃ w : (memoryGraph links).Walk seed c.memoryId,
    w.IsPath ∧ w.length = n ∧ w.support = c.path

theorem IsPathFrom.memoryId_mem (h : IsPathFrom links seeds n c) : c.memoryId ∈ c.path := by
  obtain ⟨-, seed, -, w, -, -, hsupport⟩ := h
  rw [← hsupport]
  exact w.end_mem_support

theorem mem_closureLevel :
    c ∈ closureLevel links n (seeds.map ClosurePath.seed) ↔ IsPathFrom links seeds n c := by
  induction n generalizing c with
  | zero =>
    constructor
    · intro h
      obtain ⟨seed, hseed, rfl⟩ := mem_map.mp h
      exact ⟨rfl, seed, hseed, .nil, .nil, rfl, rfl⟩
    · rintro ⟨hdepth, seed, hseed, w, -, hlength, hsupport⟩
      obtain ⟨m, depth, path⟩ := c
      cases w with
      | nil => exact mem_map.mpr ⟨m, hseed, by simp_all [ClosurePath.seed]⟩
      | cons hadj w => simp at hlength
  | succ n ih =>
    rw [closureLevel, Function.iterate_succ_apply', mem_flatMap]
    constructor
    · rintro ⟨before, hbefore, h⟩
      have hpath := ih.mp hbefore
      obtain ⟨m, hadj, hnew, rfl⟩ := (ClosurePath.mem_extend hpath.memoryId_mem).mp h
      obtain ⟨hdepth, seed, hseed, w, hw, hlength, hsupport⟩ := hpath
      refine ⟨by rw [hdepth], seed, hseed, w.concat hadj, hw.concat (hsupport ▸ hnew) hadj, ?_, ?_⟩
      · rw [SimpleGraph.Walk.length_concat, hlength]
      · rw [SimpleGraph.Walk.support_concat, hsupport]
    · rintro ⟨hdepth, seed, hseed, w, hw, hlength, hsupport⟩
      cases w with
      | nil => simp at hlength
      | cons hadj w =>
        obtain ⟨x, front, hlast, heq⟩ := w.exists_cons_eq_concat hadj
        rw [heq] at hw hlength
        rw [SimpleGraph.Walk.concat_isPath_iff] at hw
        rw [SimpleGraph.Walk.length_concat] at hlength
        refine ⟨⟨x, n, front.support⟩, ih.mpr ⟨rfl, seed, hseed, front, hw.1, ?_, rfl⟩, ?_⟩
        · exact Nat.succ.inj hlength
        · refine (ClosurePath.mem_extend front.end_mem_support).mpr ⟨_, hlast, hw.2, ?_⟩
          obtain ⟨m, depth, path⟩ := c
          simp_all

/-- **The rows of the recursive query are the simple paths from the seeds.** -/
theorem mem_closurePaths :
    c ∈ closurePaths links n (seeds.map ClosurePath.seed) ↔
      ∃ k ≤ n, IsPathFrom links seeds k c := by
  simp [mem_closurePaths_iff, mem_closureLevel]

/-! ### The bounded depth -/

/-- Some simple path of more than the greatest depth starts at a seed. -/
def ExceedsDepth (links : List PrimaryRow) (seeds : List UUID) : Prop :=
  ∃ seed ∈ seeds, ∃ m, ∃ w : (memoryGraph links).Walk seed m, w.IsPath ∧
    maxClosureDepth < w.length

/-- The probe finds a path that is too long exactly when there is one. -/
theorem exceedsDepth_eq_true :
    exceedsDepth links (closurePaths links maxClosureDepth (seeds.map ClosurePath.seed)) = true ↔
      ExceedsDepth links seeds := by
  have hlevel : exceedsDepth links
      (closurePaths links maxClosureDepth (seeds.map ClosurePath.seed)) = true ↔
        ∃ c, c ∈ closureLevel links (maxClosureDepth + 1) (seeds.map ClosurePath.seed) := by
    simp only [closureLevel, Function.iterate_succ_apply', mem_flatMap]
    simp only [exceedsDepth, any_eq_true, Bool.and_eq_true, decide_eq_true_eq,
      Bool.not_eq_true', isEmpty_eq_false_iff_exists_mem]
    constructor
    · rintro ⟨c, hc, hdepth, c', hc'⟩
      obtain ⟨k, -, hpath⟩ := mem_closurePaths.mp hc
      obtain rfl : k = maxClosureDepth := hpath.1.symm.trans hdepth
      exact ⟨c', c, mem_closureLevel.mpr hpath, hc'⟩
    · rintro ⟨c', c, hc, hc'⟩
      have hpath := mem_closureLevel.mp hc
      exact ⟨c, mem_closurePaths.mpr ⟨_, le_rfl, hpath⟩, hpath.1, c', hc'⟩
  rw [hlevel]
  constructor
  · rintro ⟨c, hc⟩
    obtain ⟨-, seed, hseed, w, hw, hlength, -⟩ := mem_closureLevel.mp hc
    exact ⟨seed, hseed, _, w, hw, by omega⟩
  · rintro ⟨seed, hseed, m, w, hw, hlength⟩
    refine ⟨⟨_, _, (w.take (maxClosureDepth + 1)).support⟩, mem_closureLevel.mpr
      ⟨rfl, seed, hseed, w.take (maxClosureDepth + 1), hw.take _, ?_, rfl⟩⟩
    rw [SimpleGraph.Walk.take_length]
    omega

/-! ### Distances -/

/-- The distances of a memory from the seeds it is reachable from. -/
def seedDistances (links : List PrimaryRow) (seeds : List UUID) (m : UUID) : Set ℕ :=
  { n | ∃ seed ∈ seeds, (memoryGraph links).Reachable seed m ∧
    (memoryGraph links).dist seed m = n }

/-- The smallest of numbers below a bound. -/
theorem foldr_min_isLeast {depths : List ℕ} {bound : ℕ} (hne : depths ≠ [])
    (hle : ∀ n ∈ depths, n ≤ bound) : IsLeast { n | n ∈ depths } (depths.foldr min bound) := by
  induction depths with
  | nil => exact absurd rfl hne
  | cons n depths ih =>
    rw [foldr_cons]
    cases hd : depths with
    | nil =>
      have := hle n mem_cons_self
      simp [this]
    | cons k rest =>
      rw [← hd]
      obtain ⟨hmem, hlow⟩ := ih (by simp [hd]) fun k hk => hle k (mem_cons_of_mem _ hk)
      refine ⟨?_, fun k hk => ?_⟩
      · rcases min_choice n (depths.foldr min bound) with h | h
        · rw [h]
          exact mem_cons_self
        · rw [h]
          exact mem_cons_of_mem _ hmem
      · rcases mem_cons.mp hk with rfl | hk
        · exact min_le_left _ _
        · exact (min_le_right _ _).trans (hlow hk)

variable {d : ℕ}

/-- `min(closure_depth)` over the rows of a memory. -/
theorem mem_closureDepths {paths : List ClosurePath}
    (hle : ∀ c ∈ paths, c.closureDepth ≤ maxClosureDepth) : (m, d) ∈ closureDepths paths ↔
      IsLeast { n | ∃ c ∈ paths, c.memoryId = m ∧ c.closureDepth = n } d := by
  set depths := (paths.filter (·.memoryId = m)).map (·.closureDepth) with hdepths
  have hmem : ∀ n, n ∈ depths ↔ ∃ c ∈ paths, c.memoryId = m ∧ c.closureDepth = n := by
    simp [hdepths, and_assoc]
  have hbound : ∀ n ∈ depths, n ≤ maxClosureDepth := by
    intro n hn
    obtain ⟨c, hc, -, rfl⟩ := (hmem n).mp hn
    exact hle c hc
  have hset : { n | ∃ c ∈ paths, c.memoryId = m ∧ c.closureDepth = n } = { n | n ∈ depths } := by
    ext n
    exact (hmem n).symm
  rw [hset, closureDepths, mem_map]
  constructor
  · rintro ⟨m', hm', heq⟩
    obtain ⟨rfl, rfl⟩ := Prod.mk.inj heq
    obtain ⟨c, hc, hcm⟩ := mem_map.mp (mem_dedup.mp hm')
    exact foldr_min_isLeast (ne_nil_of_mem ((hmem _).mpr ⟨c, hc, hcm, rfl⟩)) hbound
  · intro hd
    obtain ⟨c, hc, hcm, -⟩ := (hmem d).mp hd.1
    refine ⟨m, mem_dedup.mpr (mem_map.mpr ⟨c, hc, hcm⟩), ?_⟩
    exact congrArg (m, ·) ((foldr_min_isLeast (ne_nil_of_mem hd.1) hbound).unique hd)

/-- The depths of the rows of a memory and its distances have the same least element, if no path
is too long. -/
theorem isLeast_depth_iff (h : ¬ ExceedsDepth links seeds) :
    IsLeast { n | ∃ c ∈ closurePaths links maxClosureDepth (seeds.map ClosurePath.seed),
      c.memoryId = m ∧ c.closureDepth = n } d ↔ IsLeast (seedDistances links seeds m) d := by
  set depths := { n | ∃ c ∈ closurePaths links maxClosureDepth (seeds.map ClosurePath.seed),
    c.memoryId = m ∧ c.closureDepth = n } with hdepths
  -- A row is no shorter than the distance, and a shortest path is a row.
  have habove : ∀ n ∈ depths, ∃ k ∈ seedDistances links seeds m, k ≤ n := by
    rintro n ⟨c, hc, rfl, rfl⟩
    obtain ⟨k, -, hdepth, seed, hseed, w, -, hlength, -⟩ := mem_closurePaths.mp hc
    refine ⟨_, ⟨seed, hseed, w.reachable, rfl⟩, ?_⟩
    rw [hdepth, ← hlength]
    exact SimpleGraph.dist_le w
  have hbelow : seedDistances links seeds m ⊆ depths := by
    rintro n ⟨seed, hseed, hreach, rfl⟩
    obtain ⟨w, hw, hlength⟩ := hreach.exists_path_of_dist
    have hshort : w.length ≤ maxClosureDepth := by
      by_contra hlong
      exact h ⟨seed, hseed, m, w, hw, by omega⟩
    exact ⟨⟨m, w.length, w.support⟩,
      mem_closurePaths.mpr ⟨w.length, hshort, rfl, seed, hseed, w, hw, rfl, rfl⟩, rfl, hlength⟩
  constructor
  · rintro ⟨hd, hlow⟩
    obtain ⟨k, hk, hkd⟩ := habove d hd
    obtain rfl : k = d := le_antisymm hkd (hlow (hbelow hk))
    exact ⟨hk, fun n hn => hlow (hbelow hn)⟩
  · rintro ⟨hd, hlow⟩
    refine ⟨hbelow hd, fun n hn => ?_⟩
    obtain ⟨k, hk, hkn⟩ := habove n hn
    exact (hlow hk).trans hkn

variable {db db' : Database} {p : UUID}

/-- The closure is refused for no other reason than a path that is too long. -/
theorem memoryClosure_eq_error_iff {e : SqlState} : memoryClosure db p seeds = .error e ↔
    e = .P0005 ∧ ExceedsDepth (rowsOf db p .memoryLink) seeds := by
  rw [memoryClosure, bind_eq_error, ← exceedsDepth_eq_true]
  cases exceedsDepth (rowsOf db p .memoryLink) (closurePaths (rowsOf db p .memoryLink)
    maxClosureDepth (seeds.map ClosurePath.seed)) with
  | true => simp [ensure, eq_comm]
  | false => simp [ensure, pure, Except.pure]

variable {rows : List (UUID × ℕ)}

/-- **The closure holds exactly the reachable memories, at their distances.** -/
theorem memoryClosure_eq_ok (h : memoryClosure db p seeds = .ok rows) :
    ¬ ExceedsDepth (rowsOf db p .memoryLink) seeds ∧ (rows.map Prod.fst).Nodup ∧
      ∀ m d, (m, d) ∈ rows ↔ IsLeast (seedDistances (rowsOf db p .memoryLink) seeds m) d := by
  obtain ⟨_, hprobe, h⟩ := bind_eq_ok.mp h
  cases h
  have hshort : ¬ ExceedsDepth (rowsOf db p .memoryLink) seeds := by
    rw [← exceedsDepth_eq_true]
    simpa using hprobe
  refine ⟨hshort, ?_, fun m d => ?_⟩
  · rw [closureDepths, map_map]
    exact (map_id' _).symm ▸ nodup_dedup _
  · rw [mem_closureDepths, isLeast_depth_iff hshort]
    intro c hc
    obtain ⟨k, hk, hdepth, -⟩ := mem_closurePaths.mp hc
    exact hdepth.symm ▸ hk

/-! ### Accepted requests -/

section Requests

variable {C : Cluster} {args : RequestArguments} {now : ℕ} {r : UUID}

/-- The memory starts the closure: a row of the project has it that is attributed to the target,
or a run bound to it is among the runs. -/
def IsSeed (db : Database) (p : UUID) (scope : Scope) (runs : List UUID) (m : UUID) : Prop :=
  ∃ row ∈ db.primary .memoryItem, row.projectId = p ∧ m ∈ row.memoryIds ∧
    (isAttributed scope row = true ∨ ∃ run ∈ runs, ∃ b ∈ db.primary .runMemoryBinding,
      b.projectId = p ∧ b.runId = some run ∧ m ∈ b.memoryIds)

variable {runs : List UUID} {scope : Scope}

theorem mem_seedMemories : m ∈ seedMemories db p scope runs ↔ IsSeed db p scope runs m := by
  simp only [seedMemories, mem_dedup, mem_flatMap, rowsOf, mem_filter,
    decide_eq_true_eq, Bool.or_eq_true, any_eq_true, boundMemories, IsSeed, and_assoc]

/-- What fencing leaves alone. -/
structure SameRows (db db' : Database) : Prop where
  primary : db'.primary = db.primary
  memSet : db'.memSet = db.memSet

theorem mem_capturedRuns_captureRun {run x : UUID} :
    x ∈ (captureRun p r run db).capturedRuns p r ↔ x ∈ db.capturedRuns p r ∨ x = run := by
  by_cases hcaptured : run ∈ db.capturedRuns p r
  · rw [captureRun_eq_self hcaptured]
    exact ⟨.inl, fun h => h.elim id fun h => h ▸ hcaptured⟩
  · have hkey : RunSetRow.key ⟨p, r, run, 1⟩ ∉ db.runSet.map RunSetRow.key := by
      intro h
      obtain ⟨s, hs, he⟩ := mem_map.mp h
      simp only [RunSetRow.key, Prod.mk.injEq] at he
      exact hcaptured (mem_map.mpr ⟨s, mem_filter.mpr ⟨hs, decide_eq_true ⟨he.1, he.2.1⟩⟩, he.2.2⟩)
    simp [Database.capturedRuns, captureRun, insertNew, hkey]

theorem fenceRuns_eq_ok (h : runs.foldlM (fenceRun p r) db = .ok db') :
    SameRows db db' ∧ ∀ x, x ∈ db'.capturedRuns p r ↔ x ∈ db.capturedRuns p r ∨ x ∈ runs := by
  induction runs generalizing db with
  | nil =>
    cases h
    exact ⟨⟨rfl, rfl⟩, by simp⟩
  | cons run runs ih =>
    obtain ⟨db₁, hrun, h⟩ := bind_eq_ok.mp h
    obtain ⟨_, -, hrun⟩ := bind_eq_ok.mp hrun
    cases hrun
    obtain ⟨hrows, hcaptured⟩ := ih h
    refine ⟨⟨hrows.primary, hrows.memSet⟩, fun x => ?_⟩
    have hfirst : x ∈ (setRunFenced p r run (captureRun p r run
        (ensureRunFence p run db))).capturedRuns p r ↔ x ∈ db.capturedRuns p r ∨ x = run :=
      mem_capturedRuns_captureRun
    rw [hcaptured, hfirst, mem_cons, or_assoc]

theorem mem_captureMemories (hrows : (rows.map Prod.fst).Nodup)
    (hnone : ∀ s ∈ db.memSet, ¬ (s.projectId = p ∧ s.requestId = r)) :
    (∃ s ∈ (captureMemories p r rows db).memSet, s.projectId = p ∧ s.requestId = r ∧
      s.memoryId = m ∧ s.closureDepth = d) ↔ (m, d) ∈ rows := by
  have hkeyed : Table.Keyed MemSetRow.key (rows.map fun m => ⟨p, r, m.1, m.2, 1⟩) := by
    rw [Table.Keyed, map_map]
    refine List.Nodup.of_map (fun k => k.2.2) ?_
    rw [map_map]
    exact hrows
  constructor
  · rintro ⟨s, hs, hp, hr, rfl, rfl⟩
    rcases mem_insertAll hs with hold | ⟨hnew, -⟩
    · exact absurd ⟨hp, hr⟩ (hnone s hold)
    · obtain ⟨row, hrow, rfl⟩ := mem_map.mp hnew
      exact hrow
  · intro hrow
    have hnew : (⟨p, r, m, d, 1⟩ : MemSetRow) ∈ rows.map fun m => ⟨p, r, m.1, m.2, 1⟩ :=
      mem_map.mpr ⟨(m, d), hrow, rfl⟩
    have hinserted : MemSetRow.key ⟨p, r, m, d, 1⟩ ∈
        (captureMemories p r rows db).memSet.map MemSetRow.key := key_mem_insertAll hnew
    obtain ⟨s, hs, hkey⟩ := mem_map.mp hinserted
    have hfields := hkey
    simp only [MemSetRow.key, Prod.mk.injEq] at hfields
    rcases mem_insertAll hs with hold | ⟨hs', -⟩
    · exact absurd ⟨hfields.1, hfields.2.1⟩ (hnone s hold)
    · obtain rfl := hkeyed.eq_of_key hs' hnew hkey
      exact ⟨_, hs, rfl, rfl, rfl, rfl⟩

theorem captureClosure_closure_congr (h : SameRows db db') (scope : Scope) (runs : List UUID) :
    memoryClosure db' p (seedMemories db' p scope runs) =
      memoryClosure db p (seedMemories db p scope runs) := by
  have hrows : ∀ t, rowsOf db' p t = rowsOf db p t := fun t => by rw [rowsOf, rowsOf, h.primary]
  have hbound : ∀ run, boundMemories db' p run = boundMemories db p run := fun run => by
    rw [boundMemories, boundMemories, hrows]
  have hseeds : seedMemories db' p scope runs = seedMemories db p scope runs := by
    simp [seedMemories, hrows, hbound]
  rw [hseeds, memoryClosure, memoryClosure, hrows]

theorem requestErasure_captures {db' : Database}
    (hnew : (db.requests.find? fun q => q.projectId = args.projectId &&
      q.scope = args.scope C) = none)
    (h : requestErasure C args now db = .ok (r, db')) :
    r = args.newRequestId ∧ ∃ rows,
      memoryClosure db args.projectId (seedMemories db args.projectId (args.scope C)
        (targetRuns db args.projectId (args.scope C))) = .ok rows ∧
      db'.memSet = (captureMemories args.projectId r rows db).memSet ∧
      ∀ x, x ∈ db'.capturedRuns args.projectId r ↔ x ∈ db.capturedRuns args.projectId r ∨
        x ∈ targetRuns db args.projectId (args.scope C) := by
  obtain ⟨hold, -⟩ | ⟨db₁, closure, entry, digest, -, rfl, -, hclosure, -, hreceipt⟩ :=
    requestErasure_eq_ok h
  · exact absurd hnew hold
  obtain ⟨_, -, rfl⟩ := appendReceipt_eq_ok hreceipt
  obtain ⟨db₄, hfence, h⟩ := bind_eq_ok.mp hclosure
  obtain ⟨db₅, hruns, h⟩ := bind_eq_ok.mp h
  obtain ⟨rows, hrows, h⟩ := bind_eq_ok.mp h
  cases h
  obtain ⟨_, rfl⟩ := fenceTarget_eq_ok hfence
  obtain ⟨hfenced, hcaptured⟩ := fenceRuns_eq_ok hruns
  have hsame : SameRows db db₅ := ⟨hfenced.primary, hfenced.memSet⟩
  refine ⟨rfl, rows, ?_, ?_, fun x => ?_⟩
  · rw [← captureClosure_closure_congr hsame]
    exact hrows
  · change (captureMemories _ _ rows db₅).memSet = _
    rw [captureMemories, captureMemories, hsame.memSet]
  · exact hcaptured x

/-- No step but the memory closure refuses with the bounded-depth error. -/
theorem fenceTarget_ne_P0005 : fenceTarget p r scope db ≠ .error .P0005 := by
  cases scope with
  | subject digest =>
    exact bind_ne_error (ensure_ne_error nofun) nofun
  | project => exact nofun

theorem fenceRuns_ne_P0005 : runs.foldlM (fenceRun p r) db ≠ .error .P0005 := by
  induction runs generalizing db with
  | nil => exact nofun
  | cons run runs ih =>
    refine bind_ne_error ?_ fun _ _ => ih
    exact bind_ne_error (ensure_ne_error nofun) nofun

theorem publishFence_ne_P0005 : publishFence C p r now db ≠ .error .P0005 := by
  refine bind_ne_error ?_ nofun
  refine bind_ne_error (ensure_ne_error nofun) fun _ _ => ?_
  refine bind_ne_error (orThrow_ne_error nofun) fun _ _ => ?_
  exact bind_ne_error (ensure_ne_error nofun) nofun

theorem requestErasure_eq_P0005 (h : requestErasure C args now db = .error .P0005) :
    ExceedsDepth (rowsOf db args.projectId .memoryLink) (seedMemories db args.projectId
      (args.scope C) (targetRuns db args.projectId (args.scope C))) := by
  by_contra hshort
  refine absurd h ?_
  refine bind_ne_error (ensure_ne_error nofun) fun _ _ => ?_
  refine bind_ne_error (ensure_ne_error nofun) fun _ _ => ?_
  split
  · exact nofun
  · refine bind_ne_error (ensure_ne_error nofun) fun _ _ => ?_
    refine bind_ne_error (ensure_ne_error nofun) fun _ _ => ?_
    refine bind_ne_error ?_ fun _ _ => bind_ne_error publishFence_ne_P0005 nofun
    refine bind_ne_error fenceTarget_ne_P0005 fun db₁ hfence => ?_
    refine bind_ne_error fenceRuns_ne_P0005 fun db₂ hruns => ?_
    refine bind_ne_error (fun hclosure => hshort ?_) nofun
    obtain ⟨_, rfl⟩ := fenceTarget_eq_ok hfence
    have hfenced := (fenceRuns_eq_ok hruns).1
    have hsame : SameRows db db₂ := ⟨hfenced.primary, hfenced.memSet⟩
    rw [captureClosure_closure_congr hsame] at hclosure
    exact (memoryClosure_eq_error_iff.mp hclosure).2

/-- **The closure of a request is exact.** An accepted new request holds in `erase_mem_set`
exactly the memories reachable from its seeds along links in either direction, each at its
shortest distance from a seed; and a call that nothing else refuses is refused with the
bounded-depth error exactly when a simple path of more than 1024 links starts at a seed. The
id of the new request comes from `gen_random_uuid`; no closure row of the project has it yet. -/
theorem requestErasure_closure_exact (C : Cluster) (args : RequestArguments) (now : ℕ)
    (db : Database)
    (hmem : ∀ s ∈ db.memSet, ¬ (s.projectId = args.projectId ∧ s.requestId = args.newRequestId))
    (hrun : ∀ s ∈ db.runSet, ¬ (s.projectId = args.projectId ∧ s.requestId = args.newRequestId))
    (hnew : (db.requests.find? fun q => q.projectId = args.projectId &&
      q.scope = args.scope C) = none) :
    (∀ r db', requestErasure C args now db = .ok (r, db') → ∀ m d,
      (∃ s ∈ db'.memSet, s.projectId = args.projectId ∧ s.requestId = r ∧ s.memoryId = m ∧
        s.closureDepth = d) ↔
      IsLeast { n | ∃ seed, IsSeed db args.projectId (args.scope C)
          (db'.capturedRuns args.projectId r) seed ∧
        (memoryGraph (rowsOf db args.projectId .memoryLink)).Reachable seed m ∧
        (memoryGraph (rowsOf db args.projectId .memoryLink)).dist seed m = n } d) ∧
    ((∀ e, requestErasure C args now db = .error e → e = .P0005) →
      (requestErasure C args now db = .error .P0005 ↔
        ∃ seed, IsSeed db args.projectId (args.scope C)
            (targetRuns db args.projectId (args.scope C)) seed ∧
          ∃ m, ∃ w : (memoryGraph (rowsOf db args.projectId .memoryLink)).Walk seed m,
            w.IsPath ∧ 1024 < w.length)) := by
  constructor
  · intro r db' h m d
    obtain ⟨rfl, rows, hrows, hset, hcaptured⟩ := requestErasure_captures hnew h
    have hruns : ∀ x, x ∈ db'.capturedRuns args.projectId args.newRequestId ↔
        x ∈ targetRuns db args.projectId (args.scope C) := by
      intro x
      refine (hcaptured x).trans ⟨fun hx => hx.resolve_left fun hold => ?_, .inr⟩
      obtain ⟨s, hs, -⟩ := mem_map.mp hold
      obtain ⟨hs, hkey⟩ := mem_filter.mp hs
      exact hrun s hs (of_decide_eq_true hkey)
    obtain ⟨-, hnodup, hexact⟩ := memoryClosure_eq_ok hrows
    rw [hset, mem_captureMemories hnodup hmem, hexact, seedDistances]
    simp only [mem_seedMemories, IsSeed, hruns]
  · intro honly
    have hdeep : requestErasure C args now db = .error .P0005 ↔
        ExceedsDepth (rowsOf db args.projectId .memoryLink) (seedMemories db args.projectId
          (args.scope C) (targetRuns db args.projectId (args.scope C))) := by
      refine ⟨requestErasure_eq_P0005, fun hlong => ?_⟩
      cases hresult : requestErasure C args now db with
      | error e => rw [honly e hresult]
      | ok result =>
        obtain ⟨-, rows, hrows, -⟩ := requestErasure_captures hnew hresult
        exact absurd hlong (memoryClosure_eq_ok hrows).1
    simpa only [ExceedsDepth, mem_seedMemories, maxClosureDepth] using hdeep

end Requests

namespace Sample

/-- A memory of the subject with a link to itself and two links to one that is gone. -/
def linked : Database :=
  { initial with
    primary := fun t =>
      match t with
      | .memoryItem => [⟨1, project, none, [⟨10⟩], [tagDigest standardCluster project tag], [],
          false, none, none⟩]
      | .memoryLink => [[⟨10⟩, ⟨10⟩], [⟨10⟩, ⟨11⟩], [⟨11⟩, ⟨10⟩]].map fun ends =>
        ⟨1, project, none, ends, [], [], false, none, none⟩
      | _ => [] }

def subjectRequest : RequestArguments :=
  ⟨project, principal, principal, principal, some tag, request⟩

/-- The closure of the request for the subject is exact. -/
theorem linked_closure_exact : ∃ db',
    requestErasure standardCluster subjectRequest 0 linked = .ok (request, db') ∧ ∀ m d,
      (∃ s ∈ db'.memSet, s.projectId = project ∧ s.requestId = request ∧ s.memoryId = m ∧
        s.closureDepth = d) ↔
      IsLeast { n | ∃ seed, IsSeed linked project (subjectRequest.scope standardCluster)
          (db'.capturedRuns project request) seed ∧
        (memoryGraph (rowsOf linked project .memoryLink)).Reachable seed m ∧
        (memoryGraph (rowsOf linked project .memoryLink)).dist seed m = n } d := by
  have hok : ((requestErasure standardCluster subjectRequest 0 linked).toOption.map Prod.fst) =
      some request := by decide +kernel
  obtain ⟨⟨r, db'⟩, hsome, rfl⟩ := Option.map_eq_some_iff.mp hok
  have h := toOption_eq_some.mp hsome
  have hexact := requestErasure_closure_exact standardCluster subjectRequest 0 linked
    (by simp [linked, initial]) (by simp [linked, initial]) rfl
  exact ⟨db', h, hexact.1 _ db' h⟩

end Sample

end Tracebed.Erasure
