import Okc.Lib.Path

/-!
# File systems with symbolic links, and where a path leads

A place is the list of the names that lead to it from the root, none of them a link on the way. A
path is resolved component by component: `..` goes up from the place that has been reached, a link
puts its target in front of the rest, and only so many links are followed.

* `LinkTree.walk_names`: a path without links leads where its names say.
* `LinkTree.resolve_real`: what a path resolves to is a place that exists and is no link.
* `LinkTree.resolve_append_notFound`: a name that is not found below a path has no entry at the
  place that the path resolves to.
* `lookup_rooted`: the text of a place leads to the place.
-/

namespace Okc.Lib

inductive Inode
  | file
  | directory
  | link (target : String)
deriving DecidableEq

/-- Why a path leads nowhere. -/
inductive Errno
  | notFound
  | notDirectory
  | tooManyLinks
deriving DecidableEq

/-- What stands at each place. -/
structure LinkTree where
  entry : List String → Option Inode
  root : entry [] = some .directory
  parent : ∀ {place name}, entry (place ++ [name]) ≠ none → entry place = some .directory

/-- How a path is walked: whether a link at its end is followed, and whether everything but the
links may be missing. -/
structure WalkMode where
  last : Bool
  missing : Bool

namespace LinkTree

variable (t : LinkTree)

/-- Walks the components from a place, with what a link does. -/
def walk (mode : WalkMode) (follow : List String → List String → Except Errno (List String)) :
    List String → List String → Except Errno (List String)
  | place, [] => .ok place
  | place, c :: rest =>
    if ¬ mode.missing ∧ t.entry place ≠ some .directory then .error .notDirectory
    else if c = "" ∨ c = "." then walk mode follow place rest
    else if c = ".." then walk mode follow place.dropLast rest
    else
      match t.entry (place ++ [c]) with
      | some (.link target) =>
        if rest = [] ∧ ¬ mode.last then .ok (place ++ [c])
        else follow (if target.toList.head? = some '/' then [] else place)
          (splitSlash target ++ rest)
      | some _ => walk mode follow (place ++ [c]) rest
      | none => if mode.missing then walk mode follow (place ++ [c]) rest else .error .notFound

/-- The place that the components lead to, over so many links at most. -/
def resolve (mode : WalkMode) : Nat → List String → List String → Except Errno (List String)
  | 0 => t.walk mode fun _ _ => .error .tooManyLinks
  | links + 1 => t.walk mode (resolve mode links)

/-- The place that an absolute path leads to. -/
def lookup (mode : WalkMode) (links : Nat) (path : String) : Except Errno (List String) :=
  t.resolve mode links [] (splitSlash path)

end LinkTree

/-- A link at the end is not followed (`lstat`). -/
def WalkMode.entry : WalkMode := ⟨false, false⟩

/-- Every link is followed, and everything exists (`realpath`). -/
def WalkMode.real : WalkMode := ⟨true, false⟩

/-- Every link is followed, and whatever else is missing is as its name says (`realpath -m`). -/
def WalkMode.planned : WalkMode := ⟨true, true⟩

/-! ## Names -/

/-- A component that names an entry. -/
structure EntryName (c : String) : Prop where
  slash : '/' ∉ c.toList
  empty : c ≠ ""
  dot : c ≠ "."
  up : c ≠ ".."

/-- The text of a place. -/
def rooted (place : List String) : String := "/" ++ joinSlash place

/-! ## Walking -/

namespace LinkTree

variable {t : LinkTree} {mode : WalkMode}
  {follow : List String → List String → Except Errno (List String)}

/-- What stands at the end of a place that exists is reached through directories. -/
theorem directory_of_entry {place names : List String} (h : t.entry (place ++ names) ≠ none)
    (hne : names ≠ []) : t.entry place = some .directory := by
  induction names using List.reverseRecOn with
  | nil => exact absurd rfl hne
  | append_singleton names name ih =>
    rw [← List.append_assoc] at h
    have hparent := t.parent h
    by_cases hnil : names = []
    · rwa [hnil, List.append_nil] at hparent
    · exact ih (by rw [hparent]; exact Option.some_ne_none _) hnil

theorem entry_eq_none_of_append {place names : List String} (h : t.entry place = none) :
    t.entry (place ++ names) = none := by
  by_cases hne : names = []
  · rwa [hne, List.append_nil]
  · by_contra hsome
    rw [directory_of_entry hsome hne] at h
    cases h

theorem walk_blank {place rest : List String} {c : String} (hc : c = "" ∨ c = ".")
    (hplace : mode.missing ∨ t.entry place = some .directory) :
    t.walk mode follow place (c :: rest) = t.walk mode follow place rest := by
  rw [walk, if_neg (by tauto), if_pos hc]

/-- A name without a link leads below. -/
theorem walk_name {place rest : List String} {c : String} (hc : EntryName c)
    (hlink : ∀ target, t.entry (place ++ [c]) ≠ some (.link target))
    (hthere : mode.missing ∨ t.entry (place ++ [c]) ≠ none) :
    t.walk mode follow place (c :: rest) = t.walk mode follow (place ++ [c]) rest := by
  have hplace : ¬ (¬ mode.missing ∧ t.entry place ≠ some .directory) := fun ⟨hm, hd⟩ =>
    hd (t.parent (hthere.resolve_left hm))
  rw [walk, if_neg hplace, if_neg (not_or.mpr ⟨hc.empty, hc.dot⟩), if_neg hc.up]
  split
  · next target h => exact absurd h (hlink target)
  · rfl
  · next h =>
    rw [if_pos (hthere.resolve_right (not_not.mpr h))]

/-- **Names without links lead where they say.** -/
theorem walk_names {place names rest : List String} (hnames : ∀ c ∈ names, EntryName c)
    (hlink : ∀ p, p <+: names → p ≠ [] → ∀ target, t.entry (place ++ p) ≠ some (.link target))
    (hthere : mode.missing ∨ t.entry (place ++ names) ≠ none) :
    t.walk mode follow place (names ++ rest) = t.walk mode follow (place ++ names) rest := by
  induction names generalizing place with
  | nil => rw [List.nil_append, List.append_nil]
  | cons c names ih =>
    have hcons : place ++ c :: names = (place ++ [c]) ++ names := by simp
    rw [List.cons_append, hcons]
    rw [hcons] at hthere
    rw [walk_name (hnames c List.mem_cons_self)]
    · refine ih (fun d hd => hnames d (List.mem_cons_of_mem _ hd)) (fun p hp _ => ?_) hthere
      have := hlink (c :: p) (List.cons_prefix_cons.mpr ⟨rfl, hp⟩) (List.cons_ne_nil _ _)
      rwa [List.append_cons] at this
    · exact hlink [c] (List.cons_prefix_cons.mpr ⟨rfl, List.nil_prefix⟩) (List.cons_ne_nil _ _)
    · exact hthere.imp_right fun h hnone => h (entry_eq_none_of_append hnone)

/-! ## What exists and is no link -/

/-- A place that exists and is no link. -/
structure Real (t : LinkTree) (place : List String) : Prop where
  names : ∀ c ∈ place, EntryName c
  there : t.entry place ≠ none
  plain : ∀ target, t.entry place ≠ some (.link target)

theorem real_nil : t.Real [] where
  names := nofun
  there := by
    rw [t.root]
    exact Option.some_ne_none _
  plain := by
    rw [t.root]
    exact nofun

/-- No place above is a link. -/
theorem Real.plain_prefix {place p : List String} (h : t.Real place) (hp : p <+: place) :
    ∀ target, t.entry p ≠ some (.link target) := by
  obtain ⟨names, rfl⟩ := hp
  by_cases hne : names = []
  · rw [hne, List.append_nil] at h
    exact h.plain
  · rw [directory_of_entry h.there hne]
    exact nofun

theorem Real.dropLast {place : List String} (h : t.Real place) : t.Real place.dropLast where
  names c hc := h.names c (List.mem_of_mem_dropLast hc)
  there hnone := by
    obtain ⟨names, hnames⟩ := List.dropLast_prefix place
    exact h.there (hnames ▸ entry_eq_none_of_append hnone)
  plain := h.plain_prefix (List.dropLast_prefix place)

/-- A real place leads to itself. -/
theorem Real.walk_self {place rest : List String} (h : t.Real place) :
    t.walk mode follow [] (place ++ rest) = t.walk mode follow place rest := by
  exact @walk_names t mode follow [] place rest h.names (fun p hp _ => h.plain_prefix hp)
    (Or.inr h.there)

/-! ## Resolving -/

/-- What a followed link leads to is real when what it follows leads to real places. -/
theorem walk_real (hfollow : ∀ place comps result, t.Real place →
      (∀ c ∈ comps, '/' ∉ c.toList) → follow place comps = .ok result → t.Real result)
    {place comps result : List String} (hplace : t.Real place)
    (hcomps : ∀ c ∈ comps, '/' ∉ c.toList) (h : t.walk .real follow place comps = .ok result) :
    t.Real result := by
  induction comps generalizing place with
  | nil =>
    obtain rfl := Except.ok.inj h
    exact hplace
  | cons c rest ih =>
    have hrest : ∀ d ∈ rest, '/' ∉ d.toList := fun d hd => hcomps d (List.mem_cons_of_mem _ hd)
    rw [walk] at h
    by_cases hdir : t.entry place = some .directory
    swap
    · rw [if_pos ⟨Bool.false_ne_true, hdir⟩] at h
      cases h
    rw [if_neg fun hno => hno.2 hdir] at h
    by_cases hblank : c = "" ∨ c = "."
    · rw [if_pos hblank] at h
      exact ih hplace hrest h
    rw [if_neg hblank] at h
    by_cases hup : c = ".."
    · rw [if_pos hup] at h
      exact ih hplace.dropLast hrest h
    rw [if_neg hup] at h
    rw [not_or] at hblank
    have hname : EntryName c := ⟨hcomps c List.mem_cons_self, hblank.1, hblank.2, hup⟩
    cases hentry : t.entry (place ++ [c]) with
    | none =>
      rw [hentry] at h
      cases h
    | some inode =>
      have hreal (hplain : ∀ target, inode ≠ .link target) : t.Real (place ++ [c]) := by
        refine ⟨fun d hd => ?_, ?_, fun target htarget => ?_⟩
        · rcases List.mem_append.mp hd with hd | hd
          · exact hplace.names d hd
          · exact List.mem_singleton.mp hd ▸ hname
        · rw [hentry]
          exact Option.some_ne_none _
        · rw [hentry] at htarget
          exact hplain target (Option.some.inj htarget)
      rw [hentry] at h
      cases inode with
      | file => exact ih (hreal nofun) hrest h
      | directory => exact ih (hreal nofun) hrest h
      | link target =>
        dsimp only at h
        rw [if_neg fun hend => hend.2 rfl] at h
        refine hfollow _ _ _ ?_ (fun d hd => ?_) h
        · split_ifs
          · exact real_nil
          · exact hplace
        · exact (List.mem_append.mp hd).elim slash_not_mem_of_mem_splitSlash (hrest d)

/-- **What a path resolves to exists and is no link.** -/
theorem resolve_real {links : Nat} {place comps result : List String} (hplace : t.Real place)
    (hcomps : ∀ c ∈ comps, '/' ∉ c.toList)
    (h : t.resolve .real links place comps = .ok result) : t.Real result := by
  induction links generalizing place comps result with
  | zero => exact walk_real (fun _ _ _ _ _ h => by cases h) hplace hcomps h
  | succ links ih => exact walk_real (fun _ _ _ hp hc h => ih hp hc h) hplace hcomps h

theorem walk_append_notFound {follow' : List String → List String → Except Errno (List String)}
    {name : String} (hname : EntryName name)
    (hfollow : ∀ place comps result, follow place comps = .ok result →
      follow' place (comps ++ [name]) = .error .notFound → t.entry (result ++ [name]) = none)
    {place comps result : List String} (h : t.walk .real follow place comps = .ok result)
    (h' : t.walk .entry follow' place (comps ++ [name]) = .error .notFound) :
    t.entry (result ++ [name]) = none := by
  induction comps generalizing place with
  | nil =>
    obtain rfl := Except.ok.inj h
    rw [List.nil_append, walk] at h'
    by_cases hdir : t.entry place = some .directory
    swap
    · rw [if_pos ⟨Bool.false_ne_true, hdir⟩] at h'
      cases h'
    rw [if_neg fun hno => hno.2 hdir, if_neg (not_or.mpr ⟨hname.empty, hname.dot⟩),
      if_neg hname.up] at h'
    cases hentry : t.entry (place ++ [name]) with
    | none => rfl
    | some inode =>
      -- whatever stands there would have been found
      rw [hentry] at h'
      cases inode <;> cases h'
  | cons c rest ih =>
    rw [walk] at h
    rw [List.cons_append, walk] at h'
    by_cases hdir : t.entry place = some .directory
    swap
    · rw [if_pos ⟨Bool.false_ne_true, hdir⟩] at h
      cases h
    rw [if_neg fun hno => hno.2 hdir] at h h'
    by_cases hblank : c = "" ∨ c = "."
    · rw [if_pos hblank] at h h'
      exact ih h h'
    rw [if_neg hblank] at h h'
    by_cases hup : c = ".."
    · rw [if_pos hup] at h h'
      exact ih h h'
    rw [if_neg hup] at h h'
    cases hentry : t.entry (place ++ [c]) with
    | none =>
      rw [hentry] at h
      cases h
    | some inode =>
      rw [hentry] at h h'
      cases inode with
      | file => exact ih h h'
      | directory => exact ih h h'
      | link target =>
        dsimp only at h h'
        rw [if_neg fun hend => hend.2 rfl] at h
        rw [if_neg fun hend => List.append_ne_nil_of_right_ne_nil _ (List.cons_ne_nil _ _) hend.1,
          ← List.append_assoc] at h'
        exact hfollow _ _ _ h h'

/-- **A name that is not found below a path has no entry where the path leads.** -/
theorem resolve_append_notFound {name : String} (hname : EntryName name) {links : Nat}
    {place comps result : List String} (h : t.resolve .real links place comps = .ok result)
    (h' : t.resolve .entry links place (comps ++ [name]) = .error .notFound) :
    t.entry (result ++ [name]) = none := by
  induction links generalizing place comps result with
  | zero => exact walk_append_notFound hname (fun _ _ _ h => by cases h) h h'
  | succ links ih =>
    refine walk_append_notFound hname ?_ h h'
    exact fun _ _ _ hreal hentry => ih hreal hentry

/-- What stands at the last name is found, a link too. -/
theorem resolve_entry_self {name : String} (hname : EntryName name) {place : List String}
    (hplace : t.Real place) (links : Nat) (h : t.entry (place ++ [name]) ≠ none) :
    t.resolve .entry links [] (place ++ [name]) = .ok (place ++ [name]) := by
  have hwalk : ∀ follow, t.walk .entry follow [] (place ++ [name]) = .ok (place ++ [name]) := by
    intro follow
    rw [hplace.walk_self, walk, if_neg fun hno => hno.2 (t.parent h),
      if_neg (not_or.mpr ⟨hname.empty, hname.dot⟩), if_neg hname.up]
    cases hentry : t.entry (place ++ [name]) with
    | none => exact absurd hentry h
    | some inode => cases inode <;> rfl
  cases links with
  | zero => exact hwalk _
  | succ links => exact hwalk _

/-- With no links on the way everything may be missing. -/
theorem resolve_planned {names : List String} (links : Nat) (hnames : ∀ c ∈ names, EntryName c)
    (hlink : ∀ p, p <+: names → ∀ target, t.entry p ≠ some (.link target)) :
    t.resolve .planned links [] names = .ok names := by
  have hwalk : ∀ follow, t.walk .planned follow [] names = .ok names := fun follow => by
    have hgo := @walk_names t .planned follow [] names [] hnames (fun p hp _ => hlink p hp)
      (Or.inl rfl)
    rwa [List.append_nil] at hgo
  cases links with
  | zero => exact hwalk _
  | succ links => exact hwalk _

/-! ## Texts -/

theorem splitSlash_rooted {place : List String} (h : ∀ c ∈ place, '/' ∉ c.toList) :
    splitSlash (rooted place) = "" :: (if place = [] then [""] else place) := by
  have happ : rooted place = "" ++ "/" ++ joinSlash place := by rw [rooted, String.empty_append]
  rw [happ, splitSlash_append (by simp)]
  split_ifs with hnil
  · rw [hnil]
    decide
  · rw [splitSlash_joinSlash hnil h]

/-- **The text of a place leads to the place.** -/
theorem lookup_rooted {links : Nat} {place : List String} (h : ∀ c ∈ place, '/' ∉ c.toList) :
    t.lookup mode links (rooted place) = t.resolve mode links [] place := by
  have hblank : ∀ follow rest, t.walk mode follow [] ("" :: rest) = t.walk mode follow [] rest :=
    fun follow rest => walk_blank (Or.inl rfl) (Or.inr t.root)
  have hwalk : ∀ follow, t.walk mode follow [] (splitSlash (rooted place)) =
      t.walk mode follow [] place := fun follow => by
    rw [splitSlash_rooted h, hblank]
    split_ifs with hnil
    · rw [hblank, hnil]
    · rfl
  cases links with
  | zero => exact hwalk _
  | succ links => exact hwalk _

end LinkTree

/-! ## Texts of places -/

theorem pathParts_rooted {place : List String}
    (h : ∀ c ∈ place, '/' ∉ c.toList ∧ c ≠ "" ∧ c ≠ ".") : pathParts (rooted place) = place := by
  rw [pathParts, LinkTree.splitSlash_rooted fun c hc => (h c hc).1]
  by_cases hnil : place = []
  · rw [if_pos hnil, hnil]
    decide
  · rw [if_neg hnil, List.filter_cons_of_neg (by simp), List.filter_eq_self]
    exact fun c hc => decide_eq_true (h c hc).2

end Okc.Lib
