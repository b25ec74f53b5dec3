import Mathlib
import Okc.Lib.Check
import Okc.Lib.OrdMap
import Okc.Lib.Text

/-!
# Directory trees

The content of a directory is the list of its entries by name, each a regular file or a
subdirectory. A `Tree` keeps the names of every directory distinct, sorted, nonempty and free of
slashes, so that two trees are equal exactly when they hold the same things at the same paths.

* `kindAt_ext`: a tree is determined by what stands at each path.
* `create` is `create_dir_all` of the parent followed by `create_new` of the file: `kindAt_create`
  says what stands where afterwards, `create_isOk` when it succeeds.
* `flatten` lists a tree in the order of a recursive walk; `mem_flatten` says what it contains, and
  `nodup_flatten` that it visits no path twice.
* `Tree.Holds`: the tree of given files; `Tree.Holds.write` adds one, `Tree.Holds.ext` says there
  is only one such tree.
-/

namespace Okc.Lib

/-- A directory entry's content. -/
inductive Node
  | file (bytes : Bytes)
  | dir (entries : List (String × Node))

/-- The entries of a directory. -/
abbrev Entries := List (String × Node)

/-- What stands at a path, contents of subdirectories aside. -/
inductive Kind
  | file (bytes : Bytes)
  | dir
deriving DecidableEq

/-- What stands at a path of a directory; the directory itself stands at the empty path. -/
def kindAt : Entries → List String → Option Kind
  | _, [] => some .dir
  | es, c :: rest =>
    match get? c es with
    | none => none
    | some (.file bytes) => if rest = [] then some (.file bytes) else none
    | some (.dir sub) => kindAt sub rest

/-- A name a directory entry can have. -/
def NameOk (name : String) : Prop := name ≠ "" ∧ '/' ∉ name.toList

mutual
/-- Every directory of the node is sorted by name, with proper names. -/
def WellFormed : Node → Prop
  | .file _ => True
  | .dir es => Sorted es ∧ WellFormedEntries es

def WellFormedEntries : List (String × Node) → Prop
  | [] => True
  | (name, node) :: es => (NameOk name ∧ WellFormed node) ∧ WellFormedEntries es
end

theorem wellFormedEntries_iff {es : Entries} :
    WellFormedEntries es ↔ ∀ e ∈ es, NameOk e.1 ∧ WellFormed e.2 := by
  induction es with
  | nil => simp [WellFormedEntries]
  | cons e es ih => simp [WellFormedEntries, ih]

/-- The content of a directory of the file system. -/
structure Tree where
  entries : Entries
  wellFormed : WellFormed (.dir entries)

/-- An empty directory. -/
def Tree.empty : Tree := ⟨[], by simp [WellFormed, WellFormedEntries, Sorted]⟩

/-! ## What stands at a path -/

@[simp] theorem kindAt_nil (es : Entries) : kindAt es [] = some .dir := by
  rw [kindAt]

/-- What stands at a path relative to a node. -/
def kindBelow : Node → List String → Option Kind
  | .file bytes, rest => if rest = [] then some (.file bytes) else none
  | .dir sub, rest => kindAt sub rest

theorem kindAt_cons (es : Entries) (c : String) (rest : List String) :
    kindAt es (c :: rest) = (get? c es).bind (kindBelow · rest) := by
  rw [kindAt]
  cases get? c es with
  | none => rfl
  | some node => cases node <;> rfl

theorem wellFormed_get? {es : Entries} {c : String} {node : Node} (h : WellFormed (.dir es))
    (hg : get? c es = some node) : WellFormed node :=
  (wellFormedEntries_iff.mp h.2 _ (mem_of_get? hg)).2

theorem sizeOf_lt_of_get? {es sub : Entries} {c : String} (h : get? c es = some (.dir sub)) :
    sizeOf sub < sizeOf es := by
  have hlt := List.sizeOf_lt_of_mem (mem_of_get? h)
  simp only [Prod.mk.sizeOf_spec, Node.dir.sizeOf_spec] at hlt
  omega

/-- **A tree is determined by what stands at each path.** -/
theorem kindAt_ext {es fs : Entries} (hes : WellFormed (.dir es)) (hfs : WellFormed (.dir fs))
    (h : ∀ p, kindAt es p = kindAt fs p) : es = fs := by
  refine hes.1.eq_of_get? hfs.1 fun k => ?_
  have hbelow : ∀ p, (get? k es).bind (kindBelow · p) = (get? k fs).bind (kindBelow · p) :=
    fun p => by rw [← kindAt_cons, ← kindAt_cons, h]
  cases hge : get? k es with
  | none =>
    cases hgf : get? k fs with
    | none => rfl
    | some node =>
      have hroot := hbelow []
      cases node <;> simp [hge, hgf, kindBelow] at hroot
  | some node =>
    cases hgf : get? k fs with
    | none =>
      have hroot := hbelow []
      cases node <;> simp [hge, hgf, kindBelow] at hroot
    | some node' =>
      simp only [hge, hgf, Option.bind_some] at hbelow
      cases node with
      | file x =>
        cases node' with
        | file y => simpa [kindBelow] using hbelow []
        | dir sub' => simpa [kindBelow] using hbelow []
      | dir sub =>
        cases node' with
        | file y => simpa [kindBelow] using hbelow []
        | dir sub' =>
          have hlt := sizeOf_lt_of_get? hge
          rw [kindAt_ext (wellFormed_get? hes hge) (wellFormed_get? hfs hgf) hbelow]
termination_by sizeOf es

/-! ## Creating files -/

/-- Why the file system refuses an operation. -/
inductive FsError
  | alreadyExists
  | notADirectory
  | other
deriving DecidableEq

/-- `create_dir` of the entry `c` unless it is there: the entries of that directory. -/
def openDir (c : String) (es : Entries) : Except FsError Entries :=
  match get? c es with
  | none => .ok []
  | some (.dir sub) => .ok sub
  | some (.file _) => .error .notADirectory

/-- `create_dir_all` of a path's parent, then `create_new` of the file. -/
def create : Entries → List String → Bytes → Except FsError Entries
  | _, [], _ => .error .alreadyExists
  | es, [c], bytes => if get? c es = none then .ok (insertKey c (.file bytes) es)
    else .error .alreadyExists
  | es, c :: r :: rest, bytes => do
    let sub ← openDir c es
    let sub ← create sub (r :: rest) bytes
    .ok (insertKey c (.dir sub) es)

/-- `q` is a directory on the way to `p`. -/
def Above (q p : List String) : Prop := q <+: p ∧ q ≠ p

instance (q p : List String) : Decidable (Above q p) :=
  inferInstanceAs (Decidable (q <+: p ∧ q ≠ p))

theorem above_cons {c d : String} {q p : List String} :
    Above (c :: q) (d :: p) ↔ c = d ∧ Above q p := by
  simp [Above, List.cons_prefix_cons]
  tauto

theorem not_above_nil (q : List String) : ¬ Above q [] := by
  rintro ⟨h, hne⟩
  exact hne (List.prefix_nil.mp h)

theorem nil_above_cons (c : String) (p : List String) : Above [] (c :: p) := by
  simp [Above]

/-- The directory `openDir` enters holds what stood below the entry. -/
theorem kindAt_openDir {c : String} {es sub : Entries} (h : openDir c es = .ok sub)
    {q : List String} (hq : q ≠ []) : (get? c es).bind (kindBelow · q) = kindAt sub q := by
  unfold openDir at h
  split at h
  · next hg =>
    cases h
    rw [hg]
    cases q with
    | nil => exact absurd rfl hq
    | cons d q => rw [kindAt_cons]; rfl
  · next hg =>
    cases h
    rw [hg]
    rfl
  · cases h

theorem wellFormed_openDir {c : String} {es sub : Entries} (hes : WellFormed (.dir es))
    (h : openDir c es = .ok sub) : WellFormed (.dir sub) := by
  unfold openDir at h
  split at h
  · cases h
    exact Tree.empty.wellFormed
  · next hg =>
    cases h
    exact wellFormed_get? hes hg
  · cases h

/-- **What a successful `create` leaves**: the file at its path, directories on the way to it, and
everything else as before. -/
theorem kindAt_create {es es' : Entries} {p : List String} {bytes : Bytes}
    (h : create es p bytes = .ok es') (q : List String) :
    kindAt es' q =
      if q = p then some (.file bytes) else if Above q p then some .dir else kindAt es q := by
  match p, q with
  | [], _ => cases h
  | c :: rest, [] =>
    rw [kindAt_nil, if_neg (by simp), if_pos (nil_above_cons _ _)]
  | [c], d :: q =>
    rw [create] at h
    split_ifs at h with hg
    cases h
    simp only [List.cons.injEq, above_cons, not_above_nil, and_false, if_false, kindAt_cons]
    by_cases hcd : d = c
    · subst hcd
      rw [get?_insertKey_self, hg]
      by_cases hq : q = [] <;> simp [hq, kindBelow]
    · rw [get?_insertKey_ne _ _ (Ne.symm hcd)]
      simp [hcd]
  | c :: r :: rest, d :: q =>
    simp only [create, bind_eq_ok, Except.ok.injEq] at h
    obtain ⟨sub, hopen, sub', hs, rfl⟩ := h
    simp only [List.cons.injEq, above_cons, kindAt_cons _ d q]
    by_cases hcd : d = c
    · subst hcd
      rw [get?_insertKey_self, Option.bind_some, kindBelow, kindAt_create hs q]
      by_cases hq : q = []
      · simp [hq, nil_above_cons]
      · simp [kindAt_openDir hopen hq]
    · rw [get?_insertKey_ne _ _ (Ne.symm hcd)]
      simp [hcd]

/-- A free path without a file on the way to it can be created. -/
theorem create_isOk {es : Entries} {p : List String} (bytes : Bytes) (hp : p ≠ [])
    (hfree : kindAt es p = none) (hway : ∀ q, Above q p → ∀ x, kindAt es q ≠ some (.file x)) :
    ∃ es', create es p bytes = .ok es' := by
  match p with
  | [] => exact absurd rfl hp
  | [c] =>
    rw [kindAt_cons] at hfree
    cases hg : get? c es with
    | none => exact ⟨_, by rw [create, if_pos hg]⟩
    | some node => cases node <;> simp [hg, kindBelow] at hfree
  | c :: r :: rest =>
    have hopen : ∃ sub, openDir c es = .ok sub := by
      unfold openDir
      split
      · exact ⟨_, rfl⟩
      · exact ⟨_, rfl⟩
      · next x hg =>
        refine absurd ?_ (hway [c] (above_cons.mpr ⟨rfl, nil_above_cons _ _⟩) x)
        simp [kindAt_cons, hg, kindBelow]
    obtain ⟨sub, hopen⟩ := hopen
    have hsub : ∀ q, q ≠ [] → kindAt sub q = kindAt es (c :: q) := fun q hq => by
      rw [kindAt_cons, kindAt_openDir hopen hq]
    obtain ⟨sub', hs⟩ := @create_isOk sub (r :: rest) bytes (List.cons_ne_nil r rest)
      (by rw [hsub _ (List.cons_ne_nil r rest), hfree]) fun q hq x => by
        by_cases hn : q = []
        · simp [hn]
        · rw [hsub q hn]
          exact hway (c :: q) (above_cons.mpr ⟨rfl, hq⟩) x
    exact ⟨insertKey c (.dir sub') es, by
      rw [create, hopen]
      simp only [bind_eq_ok]
      exact ⟨sub, rfl, sub', hs, rfl⟩⟩

theorem wellFormed_insertKey {es : Entries} {name : String} {node : Node}
    (hes : WellFormed (.dir es)) (hname : NameOk name) (hnode : WellFormed node) :
    WellFormed (.dir (insertKey name node es)) := by
  refine ⟨sorted_insertKey _ _ hes.1, wellFormedEntries_iff.mpr fun e he => ?_⟩
  rcases mem_insertKey he with rfl | he
  · exact ⟨hname, hnode⟩
  · exact wellFormedEntries_iff.mp hes.2 e he

theorem wellFormed_create {es es' : Entries} {p : List String} {bytes : Bytes}
    (hes : WellFormed (.dir es)) (hp : ∀ c ∈ p, NameOk c) (h : create es p bytes = .ok es') :
    WellFormed (.dir es') := by
  match p with
  | [] => cases h
  | [c] =>
    rw [create] at h
    split_ifs at h
    cases h
    exact wellFormed_insertKey hes (hp c List.mem_cons_self) trivial
  | c :: r :: rest =>
    simp only [create, bind_eq_ok, Except.ok.injEq] at h
    obtain ⟨sub, hopen, sub', hs, rfl⟩ := h
    exact wellFormed_insertKey hes (hp c List.mem_cons_self) (wellFormed_create
      (wellFormed_openDir hes hopen) (fun d hd => hp d (List.mem_cons_of_mem _ hd)) hs)

/-! ## Trees -/

instance (name : String) : Decidable (NameOk name) :=
  inferInstanceAs (Decidable (name ≠ "" ∧ '/' ∉ name.toList))

namespace Tree

theorem ext {t u : Tree} (h : ∀ p, kindAt t.entries p = kindAt u.entries p) : t = u := by
  have he := kindAt_ext t.wellFormed u.wellFormed h
  cases t
  cases u
  cases he
  rfl

/-- The content of the file at a path. -/
def read (t : Tree) (path : List String) : Option Bytes :=
  match kindAt t.entries path with
  | some (.file bytes) => some bytes
  | _ => none

theorem read_eq_some {t : Tree} {path : List String} {bytes : Bytes} :
    t.read path = some bytes ↔ kindAt t.entries path = some (.file bytes) := by
  unfold read
  split <;> simp_all

/-- Create a file; a path with an improper name does not exist. -/
def write (t : Tree) (path : List String) (bytes : Bytes) : Except FsError Tree :=
  if hp : ∀ c ∈ path, NameOk c then
    match h : create t.entries path bytes with
    | .ok es => .ok ⟨es, wellFormed_create t.wellFormed hp h⟩
    | .error e => .error e
  else .error .other

theorem create_of_write {t u : Tree} {path : List String} {bytes : Bytes}
    (h : t.write path bytes = .ok u) : create t.entries path bytes = .ok u.entries := by
  unfold write at h
  split_ifs at h
  split at h
  · next hc =>
    cases h
    exact hc
  · cases h

theorem kindAt_write {t u : Tree} {path : List String} {bytes : Bytes}
    (h : t.write path bytes = .ok u) (q : List String) :
    kindAt u.entries q =
      if q = path then some (.file bytes) else if Above q path then some .dir
      else kindAt t.entries q :=
  kindAt_create (create_of_write h) q

theorem write_isOk {t : Tree} {path : List String} (bytes : Bytes) (hp : path ≠ [])
    (hnames : ∀ c ∈ path, NameOk c) (hfree : kindAt t.entries path = none)
    (hway : ∀ q, Above q path → ∀ x, kindAt t.entries q ≠ some (.file x)) :
    ∃ u, t.write path bytes = .ok u := by
  obtain ⟨es, hes⟩ := create_isOk bytes hp hfree hway
  unfold write
  rw [dif_pos hnames]
  split
  · exact ⟨_, rfl⟩
  · next he =>
    rw [hes] at he
    cases he

end Tree

/-! ## Walking -/

mutual
/-- A node at `path` and what is below it, in the order of a recursive walk. -/
def flattenNode (path : List String) : Node → List (List String × Kind)
  | .file bytes => [(path, .file bytes)]
  | .dir es => (path, .dir) :: flatten path es

/-- What is below a directory at `path`. -/
def flatten (path : List String) : List (String × Node) → List (List String × Kind)
  | [] => []
  | (name, node) :: es => flattenNode (path ++ [name]) node ++ flatten path es
end

mutual
theorem mem_flattenNode : ∀ (node : Node) (path p : List String) (k : Kind), WellFormed node →
    ((p, k) ∈ flattenNode path node ↔ ∃ q, p = path ++ q ∧ kindBelow node q = some k)
  | .file bytes, path, p, k, _ => by
    simp only [flattenNode, List.mem_singleton, Prod.mk.injEq, kindBelow]
    constructor
    · rintro ⟨rfl, rfl⟩
      exact ⟨[], by simp⟩
    · rintro ⟨q, rfl, hq⟩
      split_ifs at hq with h
      subst h
      exact ⟨List.append_nil _, (Option.some.inj hq).symm⟩
  | .dir es, path, p, k, h => by
    rw [flattenNode, List.mem_cons, mem_flatten es path p k h]
    constructor
    · rintro (he | ⟨q, _, hp, hq⟩)
      · cases he
        exact ⟨[], by simp [kindBelow]⟩
      · exact ⟨q, hp, hq⟩
    · rintro ⟨q, rfl, hq⟩
      by_cases h : q = []
      · subst h
        simp only [kindBelow, kindAt_nil, Option.some.injEq] at hq
        exact Or.inl (by simp [hq])
      · exact Or.inr ⟨q, h, rfl, hq⟩

/-- **A walk lists exactly what stands below the directory.** -/
theorem mem_flatten : ∀ (es : Entries) (path p : List String) (k : Kind), WellFormed (.dir es) →
    ((p, k) ∈ flatten path es ↔ ∃ q, q ≠ [] ∧ p = path ++ q ∧ kindAt es q = some k)
  | [], path, p, k, _ => by
    simp only [flatten, List.not_mem_nil, false_iff]
    rintro ⟨q, hq, _, hk⟩
    cases q with
    | nil => exact hq rfl
    | cons c q => simp [kindAt_cons, get?] at hk
  | (name, node) :: es, path, p, k, h => by
    obtain ⟨hlt, hs⟩ := sorted_cons.mp h.1
    rw [flatten, List.mem_append, mem_flattenNode node _ p k h.2.1.2,
      mem_flatten es path p k ⟨hs, h.2.2⟩]
    constructor
    · rintro (⟨q, rfl, hq⟩ | ⟨q, hne, rfl, hq⟩)
      · exact ⟨name :: q, by simp, by simp, by simp [kindAt_cons, get?, hq]⟩
      · refine ⟨q, hne, rfl, ?_⟩
        cases q with
        | nil => exact absurd rfl hne
        | cons c q =>
          have hc : name ≠ c := fun he => by
            subst he
            rw [kindAt_cons] at hq
            cases hg : get? name es with
            | none => simp [hg] at hq
            | some n => exact absurd (hlt _ (mem_of_get? hg)) (lt_irrefl _)
          rw [kindAt_cons] at hq ⊢
          rw [get?, if_neg hc, hq]
    · rintro ⟨q, hne, rfl, hq⟩
      cases q with
      | nil => exact absurd rfl hne
      | cons c q =>
        rw [kindAt_cons, get?] at hq
        split_ifs at hq with hc
        · subst hc
          exact Or.inl ⟨q, by simp, hq⟩
        · exact Or.inr ⟨c :: q, by simp, rfl, by rw [kindAt_cons, hq]⟩
end

/-! ## Names and ancestors -/

theorem nameOk_of_kindAt : ∀ {es : Entries} {p : List String} {k : Kind}, WellFormed (.dir es) →
    kindAt es p = some k → ∀ c ∈ p, NameOk c
  | _, [], _, _, _ => fun c hc => absurd hc List.not_mem_nil
  | es, c :: rest, k, h, hk => by
    rw [kindAt_cons] at hk
    obtain ⟨node, hg, hnode⟩ := Option.bind_eq_some_iff.mp hk
    have hc := (wellFormedEntries_iff.mp h.2 _ (mem_of_get? hg)).1
    refine List.forall_mem_cons.mpr ⟨hc, ?_⟩
    cases node with
    | file bytes =>
      have hrest : rest = [] := by
        by_contra hne
        simp [kindBelow, hne] at hnode
      simp [hrest]
    | dir sub => exact nameOk_of_kindAt (wellFormed_get? h hg) hnode

/-- A directory stands above everything. -/
theorem kindAt_of_above : ∀ {es : Entries} {p q : List String} {k : Kind},
    kindAt es p = some k → Above q p → kindAt es q = some .dir
  | _, _, [], _, _, _ => kindAt_nil _
  | _, [], _ :: _, _, _, h => absurd h (not_above_nil _)
  | es, d :: p, c :: q, k, hk, h => by
    obtain ⟨rfl, habove⟩ := above_cons.mp h
    rw [kindAt_cons] at hk ⊢
    obtain ⟨node, hg, hnode⟩ := Option.bind_eq_some_iff.mp hk
    rw [hg, Option.bind_some]
    cases node with
    | file bytes =>
      have hp : p = [] := by
        by_contra hne
        simp [kindBelow, hne] at hnode
      exact absurd (hp ▸ habove) (not_above_nil _)
    | dir sub => exact @kindAt_of_above sub _ _ _ hnode habove

/-! ## A walk visits no path twice -/

theorem head_of_mem_flatten {es : Entries} {path p : List String} (hes : WellFormed (.dir es))
    (h : p ∈ (flatten path es).map Prod.fst) :
    ∃ c rest, p = path ++ c :: rest ∧ c ∈ es.map Prod.fst := by
  obtain ⟨⟨p, k⟩, hmem, rfl⟩ := List.mem_map.mp h
  obtain ⟨q, hne, rfl, hk⟩ := (mem_flatten es path p k hes).mp hmem
  cases q with
  | nil => exact absurd rfl hne
  | cons c rest =>
    rw [kindAt_cons] at hk
    obtain ⟨node, hg, -⟩ := Option.bind_eq_some_iff.mp hk
    exact ⟨c, rest, rfl, List.mem_map_of_mem (mem_of_get? hg)⟩

theorem initial_of_mem_flattenNode {node : Node} {path p : List String} (hn : WellFormed node)
    (h : p ∈ (flattenNode path node).map Prod.fst) : ∃ q, p = path ++ q := by
  obtain ⟨⟨p, k⟩, hmem, rfl⟩ := List.mem_map.mp h
  obtain ⟨q, rfl, -⟩ := (mem_flattenNode node path p k hn).mp hmem
  exact ⟨q, rfl⟩

mutual
theorem nodup_flattenNode : ∀ (node : Node) (path : List String), WellFormed node →
    ((flattenNode path node).map Prod.fst).Nodup
  | .file bytes, path, _ => by simp [flattenNode]
  | .dir es, path, h => by
    rw [flattenNode, List.map_cons, List.nodup_cons]
    refine ⟨fun hp => ?_, nodup_flatten es path h⟩
    obtain ⟨c, rest, he, -⟩ := head_of_mem_flatten h hp
    simp at he

theorem nodup_flatten : ∀ (es : Entries) (path : List String), WellFormed (.dir es) →
    ((flatten path es).map Prod.fst).Nodup
  | [], path, _ => by simp [flatten]
  | (name, node) :: es, path, h => by
    obtain ⟨hlt, hs⟩ := sorted_cons.mp h.1
    have hrest : WellFormed (.dir es) := ⟨hs, h.2.2⟩
    rw [flatten, List.map_append, List.nodup_append]
    refine ⟨nodup_flattenNode node _ h.2.1.2, nodup_flatten es path hrest, ?_⟩
    rintro p hp q hq rfl
    obtain ⟨r, rfl⟩ := initial_of_mem_flattenNode h.2.1.2 hp
    obtain ⟨c, rest, he, hc⟩ := head_of_mem_flatten hrest hq
    obtain ⟨e, hmem, rfl⟩ := List.mem_map.mp hc
    have hcons : name :: r = e.1 :: rest :=
      List.append_cancel_left ((List.append_assoc path [name] r).symm.trans he)
    have hname : name = e.1 := (List.cons.inj hcons).1
    exact absurd (hlt e hmem) (hname ▸ lt_irrefl _)
end

/-! ## The tree of given files -/

namespace Tree

/-- The tree holds exactly these files, and of directories only those on the way to them. -/
def Holds (t : Tree) (files : List (List String × Bytes)) : Prop :=
  ∀ q k, kindAt t.entries q = some k ↔
    (∃ f ∈ files, f.1 = q ∧ .file f.2 = k) ∨ (k = .dir ∧ (q = [] ∨ ∃ f ∈ files, Above q f.1))

theorem holds_empty : empty.Holds [] := by
  intro q k
  cases q with
  | nil => simp [eq_comm]
  | cons c q => simp [empty, kindAt_cons, get?]

/-- **Trees of the same files are equal.** -/
theorem Holds.ext {t u : Tree} {fs gs : List (List String × Bytes)} (ht : t.Holds fs)
    (hu : u.Holds gs) (h : ∀ f, f ∈ fs ↔ f ∈ gs) : t = u := by
  refine Tree.ext fun q => Option.ext fun k => ?_
  rw [ht q k, hu q k]
  simp only [h]

/-- A path none of the files stands on, above or below can be written. -/
theorem Holds.write {t : Tree} {files : List (List String × Bytes)} (h : t.Holds files)
    {path : List String} (bytes : Bytes) (hne : path ≠ []) (hnames : ∀ c ∈ path, NameOk c)
    (hapart : ∀ f ∈ files, ¬ f.1 <+: path ∧ ¬ path <+: f.1) :
    ∃ u, t.write path bytes = .ok u ∧ u.Holds ((path, bytes) :: files) := by
  have hfree : kindAt t.entries path = none := by
    by_contra hsome
    obtain ⟨k, hk⟩ := Option.ne_none_iff_exists'.mp hsome
    rcases (h path k).mp hk with ⟨f, hf, hpath, -⟩ | ⟨-, rfl | ⟨f, hf, habove⟩⟩
    · exact (hapart f hf).1 (hpath ▸ List.prefix_refl _)
    · exact hne rfl
    · exact (hapart f hf).2 habove.1
  have hway : ∀ q, Above q path → ∀ x, kindAt t.entries q ≠ some (.file x) := by
    intro q hq x hx
    rcases (h q _).mp hx with ⟨f, hf, rfl, -⟩ | ⟨hdir, -⟩
    · exact (hapart f hf).1 hq.1
    · cases hdir
  obtain ⟨u, hu⟩ := write_isOk bytes hne hnames hfree hway
  refine ⟨u, hu, fun q k => ?_⟩
  rw [kindAt_write hu q]
  simp only [List.mem_cons, exists_eq_or_imp]
  by_cases hq : q = path
  · subst hq
    have hnone : ¬ ∃ f ∈ files, Above q f.1 := fun ⟨f, hf, habove⟩ => (hapart f hf).2 habove.1
    have hother : ∀ f ∈ files, f.1 ≠ q := fun f hf he => (hapart f hf).1 (he ▸ List.prefix_refl _)
    have hself : ¬ Above q q := fun ha => ha.2 rfl
    rw [if_pos rfl, Option.some.injEq]
    constructor
    · exact fun hk => Or.inl (Or.inl ⟨rfl, hk⟩)
    · rintro ((⟨-, hk⟩ | ⟨f, hf, he, -⟩) | ⟨-, hnil | habove | habove⟩)
      · exact hk
      · exact absurd he (hother f hf)
      · exact absurd hnil hne
      · exact absurd habove hself
      · exact absurd habove hnone
  · by_cases ha : Above q path
    · have hnone : ∀ f ∈ files, f.1 ≠ q := fun f hf he => (hapart f hf).1 (he ▸ ha.1)
      rw [if_neg hq, if_pos ha, Option.some.injEq]
      constructor
      · exact fun hk => Or.inr ⟨hk.symm, Or.inr (Or.inl ha)⟩
      · rintro ((⟨he, -⟩ | ⟨f, hf, he, -⟩) | ⟨hk, -⟩)
        · exact absurd he.symm hq
        · exact absurd he (hnone f hf)
        · exact hk.symm
    · rw [if_neg hq, if_neg ha, h q k]
      simp [Ne.symm hq, ha]

theorem Holds.read {t : Tree} {files : List (List String × Bytes)} (h : t.Holds files)
    {f : List String × Bytes} (hf : f ∈ files) : t.read f.1 = some f.2 :=
  read_eq_some.mpr ((h _ _).mpr (Or.inl ⟨f, hf, rfl, rfl⟩))

end Tree

end Okc.Lib
