import Okc.Lib.LinkTree
import Okc.App.Selection

/-!
# Where a compilation may publish (`integration_service.rs:617-648`, `project_state.rs:875-892`)

`absolute_output` drops names from the end of the destination until something is there, resolves
what is left and puts the names back. `compile_locked` then compares the text with the texts of the
sources. The first test of the core compilation, that nothing has the name of the destination, is
part of what makes the comparison of the texts one of places.

The file system is a `LinkTree` and stays as it is. A relative destination is below `cwd`.

* `existingAncestor_spec`: what the loop of `absolute_output` leaves is a real place, and the first
  of two or more names has no entry in it.
* `compileLocked_outside`: what is published is, with every link followed, neither in a source nor
  around one.
-/

namespace Okc.App

open Okc.Lib Okc.Core

/-! ## The file system -/

/-- An I/O error, with its text. -/
def ioError : Errno → AppError
  | .notFound => .io "No such file or directory (os error 2)"
  | .notDirectory => .io "Not a directory (os error 20)"
  | .tooManyLinks => .io "Too many levels of symbolic links (os error 40)"

section

variable (t : LinkTree) (links : Nat)

/-- `fs::symlink_metadata(..)`, with the place it is about. -/
def symlinkMetadata (path : String) : Except Errno (List String) := t.lookup .entry links path

/-- `fs::canonicalize`. -/
def canonicalize (path : String) : Except Errno String := (t.lookup .real links path).map rooted

/-- `PathBuf::pop` of an absolute path that has a file name, up to empty components. -/
def popPath (path : String) : String := rooted (pathParts path).dropLast

theorem pathParts_spec {path c : String} (h : c ∈ pathParts path) :
    '/' ∉ c.toList ∧ c ≠ "" ∧ c ≠ "." := by
  obtain ⟨hc, hne⟩ := List.mem_filter.mp h
  exact ⟨slash_not_mem_of_mem_splitSlash hc, of_decide_eq_true hne⟩

theorem fileName_spec {path component : String} (h : fileName path = some component) :
    pathParts path = (pathParts path).dropLast ++ [component] ∧ EntryName component := by
  obtain ⟨hlast, hup⟩ := Option.filter_eq_some_iff.mp h
  obtain ⟨hslash, hempty, hdot⟩ := pathParts_spec (List.mem_of_getLast? hlast)
  exact ⟨(List.dropLast_append_getLast? _ hlast).symm,
    hslash, hempty, hdot, of_decide_eq_true hup⟩

theorem pathParts_popPath (path : String) : pathParts (popPath path) = (pathParts path).dropLast :=
  pathParts_rooted fun _ hc => pathParts_spec (List.mem_of_mem_dropLast hc)

theorem popPath_shorter {path component : String} (h : fileName path = some component) :
    (pathParts (popPath path)).length < (pathParts path).length := by
  have hparts := congrArg List.length (fileName_spec h).1
  rw [List.length_append, List.length_singleton] at hparts
  rw [pathParts_popPath]
  omega

/-- The loop of `absolute_output`: what exists of the path, and the names that were taken off. -/
def existingAncestor (ancestor : String) (missing : List String) :
    Except AppError (String × List String) :=
  match symlinkMetadata t links ancestor with
  | .ok _ => do
    let ancestor ← (canonicalize t links ancestor).mapError ioError
    .ok (ancestor, missing)
  | .error .notFound =>
    match hname : fileName ancestor with
    | none => .error (.invalidProject "output path has no existing ancestor")
    | some component =>
      have _ := popPath_shorter hname
      existingAncestor (popPath ancestor) (component :: missing)
  | .error e => .error (ioError e)
termination_by (pathParts ancestor).length
decreasing_by assumption

def absoluteOutput (cwd path : String) : Except AppError String := do
  let (ancestor, missing) ← existingAncestor t links (joinPath cwd path) []
  .ok (missing.foldl joinPath ancestor)

def pathsOverlap (left right : String) : Bool :=
  decide (SamePath left right) || startsWith left right || startsWith right left

/-- `compile_locked`, as far as the first test of the core compilation: where that publishes. -/
def compileLocked (cwd : String) (sources : List SourceBinding) (destination : String) :
    Except AppError String := do
  let destination ← absoluteOutput t links cwd destination
  reject (sources.any fun source => pathsOverlap destination source.path)
    (.invalidProject "compiled output must be outside every source")
  liftCore (reject (symlinkMetadata t links destination).isOk (.outputExists destination))
  .ok destination

end

/-! ## The loop -/

section

variable {t : LinkTree} {links : Nat}

theorem canonicalize_eq_ok {path text : String} :
    (canonicalize t links path).mapError ioError = .ok text ↔
      ∃ place, t.lookup .real links path = .ok place ∧ rooted place = text := by
  unfold canonicalize
  cases t.lookup .real links path with
  | error e => simp [Except.map, Except.mapError]
  | ok place => simp [Except.map, Except.mapError]

/-- What the loop keeps: names have been taken off, and where two or more are gone the first was
looked for where the others lead. -/
structure Pending (t : LinkTree) (links : Nat) (ancestor : String) (missing : List String) :
    Prop where
  names : ∀ c ∈ missing, EntryName c
  clean : missing ≠ [] → ancestor = rooted (pathParts ancestor)
  absent : ∀ m n rest, missing = m :: n :: rest →
    t.resolve .entry links [] (pathParts ancestor ++ [m]) = .error .notFound

/-- What the loop leaves. -/
structure Found (t : LinkTree) (place missing : List String) : Prop where
  real : t.Real place
  names : ∀ c ∈ missing, EntryName c
  absent : ∀ m n rest, missing = m :: n :: rest → t.entry (place ++ [m]) = none

theorem existingAncestor_pop {ancestor component : String} {missing : List String}
    (hlookup : symlinkMetadata t links ancestor = .error .notFound)
    (hname : fileName ancestor = some component) :
    existingAncestor t links ancestor missing =
      existingAncestor t links (popPath ancestor) (component :: missing) := by
  rw [existingAncestor, hlookup]
  dsimp only
  split
  · next hnone => cases hname.symm.trans hnone
  · next other hsome =>
    cases hname.symm.trans hsome
    rfl

/-- One turn takes one name off. -/
theorem Pending.pop {ancestor component : String} {missing : List String}
    (h : Pending t links ancestor missing)
    (hlookup : symlinkMetadata t links ancestor = .error .notFound)
    (hname : fileName ancestor = some component) :
    Pending t links (popPath ancestor) (component :: missing) := by
  obtain ⟨hparts, hcomponent⟩ := fileName_spec hname
  refine ⟨?_, fun _ => ?_, ?_⟩
  · rintro c (_ | ⟨_, hc⟩)
    · exact hcomponent
    · exact h.names c hc
  · rw [pathParts_popPath, popPath]
  · rintro m n rest ⟨rfl, rfl⟩
    have hclean := h.clean (List.cons_ne_nil _ _)
    rw [symlinkMetadata, hclean, LinkTree.lookup_rooted fun c hc => (pathParts_spec hc).1,
      hparts] at hlookup
    rwa [pathParts_popPath]

/-- **What the loop leaves is a real place, and the first of two or more names has no entry in
it.** -/
theorem existingAncestor_spec {ancestor result : String} {missing names : List String}
    (h : Pending t links ancestor missing)
    (hresult : existingAncestor t links ancestor missing = .ok (result, names)) :
    ∃ place, result = rooted place ∧ Found t place names := by
  induction ancestor, missing using existingAncestor.induct t links with
  | case1 ancestor missing _ hlookup =>
    rw [existingAncestor, hlookup] at hresult
    obtain ⟨text, htext, hresult⟩ := bind_eq_ok.mp hresult
    obtain ⟨rfl, rfl⟩ := Prod.mk.inj (Except.ok.inj hresult)
    obtain ⟨place, hplace, rfl⟩ := canonicalize_eq_ok.mp htext
    have hreal := LinkTree.resolve_real LinkTree.real_nil
      (fun _ hc => slash_not_mem_of_mem_splitSlash hc) hplace
    refine ⟨place, rfl, hreal, h.names, ?_⟩
    rintro m n rest rfl
    have hm := h.names m List.mem_cons_self
    refine LinkTree.resolve_append_notFound hm ?_ (h.absent m n rest rfl)
    rwa [h.clean (List.cons_ne_nil _ _),
      LinkTree.lookup_rooted fun c hc => (pathParts_spec hc).1] at hplace
  | case2 ancestor missing hlookup hname =>
    rw [existingAncestor, hlookup] at hresult
    dsimp only at hresult
    split at hresult
    · cases hresult
    · next component hsome => cases hname.symm.trans hsome
  | case3 ancestor missing hlookup component hname _ ih =>
    rw [existingAncestor_pop hlookup hname] at hresult
    exact ih (h.pop hlookup hname) hresult
  | case4 ancestor missing e hne hlookup =>
    rw [existingAncestor, hlookup] at hresult
    cases e with
    | notFound => exact absurd rfl hne
    | notDirectory => cases hresult
    | tooManyLinks => cases hresult

/-! ## The destination -/

/-- The text of a place below the root ends with the last name. -/
theorem rooted_concat (place : List String) (name : String) :
    ∃ before, rooted (place ++ [name]) = before ++ name ∧
      (place ≠ [] → before = rooted place ++ "/") := by
  by_cases hnil : place = []
  · exact ⟨"/", by rw [hnil, List.nil_append, rooted, joinSlash_singleton], fun h => absurd hnil h⟩
  · refine ⟨rooted place ++ "/", ?_, fun _ => rfl⟩
    rw [rooted, rooted, joinSlash_append_singleton hnil, String.append_assoc, String.append_assoc,
      String.append_assoc]

theorem joinPath_rooted {place : List String} {name : String} (hplace : ∀ c ∈ place, EntryName c)
    (h : EntryName name) : joinPath (rooted place) name = rooted (place ++ [name]) := by
  have hrelative : isAbsolute name = false := by
    refine Bool.eq_false_iff.mpr fun habsolute => h.slash ?_
    exact List.mem_of_head? (beq_iff_eq.mp habsolute)
  rw [joinPath, hrelative, if_neg Bool.false_ne_true]
  obtain rfl | ⟨init, last, rfl⟩ := List.eq_nil_or_concat' place
  · rw [if_pos (Or.inr (by decide)), List.nil_append, rooted, rooted, joinSlash_singleton]
    rfl
  · obtain ⟨before, htext, hbefore⟩ := rooted_concat (init ++ [last]) name
    have hlast : EntryName last := hplace last (by simp)
    obtain ⟨front, hfront, -⟩ := rooted_concat init last
    have hend : ¬ (rooted (init ++ [last]) = "" ∨
        (rooted (init ++ [last])).toList.getLast? = some '/') := by
      rintro (hempty | hslash)
      · have := congrArg String.toList hempty
        simp [rooted] at this
      · rw [hfront, String.toList_append, List.getLast?_append_of_ne_nil _ fun hnil =>
          hlast.empty (String.toList_inj.mp hnil)] at hslash
        exact hlast.slash (List.mem_of_getLast? hslash)
    rw [if_neg hend, htext, hbefore (by simp)]

theorem foldl_joinPath {place missing : List String} (hplace : ∀ c ∈ place, EntryName c)
    (h : ∀ c ∈ missing, EntryName c) :
    missing.foldl joinPath (rooted place) = rooted (place ++ missing) := by
  induction missing generalizing place with
  | nil => rw [List.foldl_nil, List.append_nil]
  | cons name rest ih =>
    have hname := h name List.mem_cons_self
    have hmore : ∀ c ∈ place ++ [name], EntryName c := fun c hc =>
      (List.mem_append.mp hc).elim (hplace c) fun hc => List.mem_singleton.mp hc ▸ hname
    rw [List.foldl_cons, joinPath_rooted hplace hname,
      ih hmore fun c hc => h c (List.mem_cons_of_mem _ hc), List.append_assoc,
      List.singleton_append]

/-- Where nothing has the name of the destination, no link is on the way to it. -/
theorem Found.plain {place missing : List String} (h : Found t place missing)
    (hfree : ∀ found, symlinkMetadata t links (rooted (place ++ missing)) ≠ .ok found) :
    ∀ p, p <+: place ++ missing → ∀ target, t.entry p ≠ some (.link target) := by
  have hslash : ∀ c ∈ place ++ missing, '/' ∉ c.toList := fun c hc =>
    (List.mem_append.mp hc).elim (fun hp => (h.real.names c hp).slash) fun hm => (h.names c hm).slash
  intro p hp
  rcases List.prefix_or_prefix_of_prefix hp (List.prefix_append place missing) with hp | hbelow
  · exact h.real.plain_prefix hp
  · obtain ⟨names, rfl⟩ := hbelow
    obtain ⟨rest, hrest⟩ := (List.prefix_append_right_inj place).mp hp
    cases names with
    | nil => exact h.real.plain_prefix (by simp)
    | cons m names =>
      have hmissing : missing = m :: (names ++ rest) := hrest.symm
      have hm : EntryName m := h.names m (hmissing ▸ List.mem_cons_self)
      have hnone : t.entry (place ++ [m]) = none := by
        cases htail : names ++ rest with
        | nil =>
          rw [htail] at hmissing
          by_contra hthere
          refine hfree (place ++ [m]) ?_
          rw [symlinkMetadata, LinkTree.lookup_rooted hslash, hmissing]
          exact LinkTree.resolve_entry_self hm h.real links hthere
        | cons n rest' => exact h.absent m n rest' (by rw [hmissing, htail])
      intro target htarget
      rw [List.append_cons, LinkTree.entry_eq_none_of_append hnone] at htarget
      cases htarget

/-- **The text of the destination is where it is.** -/
theorem absoluteOutput_spec {cwd path destination : String}
    (h : absoluteOutput t links cwd path = .ok destination)
    (hfree : ∀ found, symlinkMetadata t links destination ≠ .ok found) :
    ∃ place, (∀ c ∈ place, EntryName c) ∧ destination = rooted place ∧
      t.lookup .planned links destination = .ok place := by
  obtain ⟨⟨ancestor, missing⟩, hloop, hdestination⟩ := bind_eq_ok.mp h
  have hstart : Pending t links (joinPath cwd path) [] := ⟨nofun, fun h => absurd rfl h, nofun⟩
  obtain ⟨place, rfl, hfound⟩ := existingAncestor_spec hstart hloop
  have hnames : ∀ c ∈ place ++ missing, EntryName c := fun c hc =>
    (List.mem_append.mp hc).elim (hfound.real.names c) (hfound.names c)
  have htext : destination = rooted (place ++ missing) :=
    (Except.ok.inj hdestination).symm.trans (foldl_joinPath hfound.real.names hfound.names)
  subst htext
  refine ⟨place ++ missing, hnames, rfl, ?_⟩
  rw [LinkTree.lookup_rooted fun c hc => (hnames c hc).slash]
  exact LinkTree.resolve_planned links hnames (hfound.plain hfree)

/-! ## Destinations and sources -/

theorem prefix_of_not_overlap {place source : List String} (hplace : ∀ c ∈ place, EntryName c)
    (hsource : ∀ c ∈ source, EntryName c)
    (h : pathsOverlap (rooted place) (rooted source) = false) :
    ¬ source <+: place ∧ ¬ place <+: source := by
  have hparts : ∀ l : List String, (∀ c ∈ l, EntryName c) → pathParts (rooted l) = l :=
    fun l hl => pathParts_rooted fun c hc => ⟨(hl c hc).slash, (hl c hc).empty, (hl c hc).dot⟩
  have habsolute : ∀ l, isAbsolute (rooted l) = true := fun l => by simp [isAbsolute, rooted]
  rw [pathsOverlap, Bool.or_eq_false_iff, Bool.or_eq_false_iff, startsWith, startsWith,
    habsolute, habsolute, hparts place hplace, hparts source hsource] at h
  obtain ⟨⟨-, hleft⟩, hright⟩ := h
  rw [← List.isPrefixOf_iff_prefix, ← List.isPrefixOf_iff_prefix]
  exact ⟨Bool.eq_false_iff.mp hleft, Bool.eq_false_iff.mp hright⟩

/-- **What a compilation publishes is, with every link followed, not in a source, not around one
and no source itself**, whatever links lead to it and whatever is missing of it. -/
theorem compileLocked_outside (t : LinkTree) (links : Nat) {cwd path destination : String}
    {sources : List SourceBinding}
    (hsources : ∀ s ∈ sources, canonicalize t links s.path = .ok s.path)
    (h : compileLocked t links cwd sources path = .ok destination) :
    ∃ place, t.lookup .planned links destination = .ok place ∧
      ∀ s ∈ sources, ∃ source, t.lookup .real links s.path = .ok source ∧
        ¬ source <+: place ∧ ¬ place <+: source := by
  obtain ⟨text, houtput, h⟩ := bind_eq_ok.mp h
  rw [bind_unit_eq_ok, reject_eq_ok, bind_unit_eq_ok, liftCore_eq_ok, reject_eq_ok] at h
  obtain ⟨hoverlap, hfree, h⟩ := h
  obtain rfl := Except.ok.inj h
  obtain ⟨place, hplace, rfl, hlookup⟩ := absoluteOutput_spec houtput fun found hfound =>
    hfree (by rw [hfound]; rfl)
  refine ⟨place, hlookup, fun s hs => ?_⟩
  obtain ⟨source, hsource, htext⟩ := canonicalize_eq_ok.mp
    (show (canonicalize t links s.path).mapError ioError = .ok s.path by rw [hsources s hs]; rfl)
  have hreal := LinkTree.resolve_real LinkTree.real_nil
    (fun _ hc => slash_not_mem_of_mem_splitSlash hc) hsource
  refine ⟨source, hsource, prefix_of_not_overlap hplace hreal.names ?_⟩
  rw [htext]
  by_contra hyes
  exact hoverlap (List.any_eq_true.mpr ⟨s, hs, Bool.not_eq_false _ ▸ hyes⟩)

end

/-- A vault, and a working directory with a link to a place beside it. -/
def aliasEntry : List String → Option Inode
  | [] | ["data"] | ["vault"] | ["work"] => some .directory
  | ["work", "alias"] => some (.link "../data")
  | _ => none

def aliasTree : LinkTree where
  entry := aliasEntry
  root := rfl
  parent {place name} h := by
    match place with
    | [] => rfl
    | [first] =>
      by_cases hfirst : first = "work"
      · rw [hfirst]
        rfl
      · simp [aliasEntry, hfirst] at h
    | first :: second :: rest => simp [aliasEntry] at h

def vaultSource (path : String) : SourceBinding := ⟨⟨"vault"⟩, none, path, none⟩

theorem existingAncestor_alias :
    existingAncestor aliasTree 40 "/work/alias/out/new" [] = .ok ("/data", ["out", "new"]) := by
  have hnew : symlinkMetadata aliasTree 40 "/work/alias/out/new" = .error .notFound := by
    decide +kernel
  have hout : symlinkMetadata aliasTree 40 "/work/alias/out" = .error .notFound := by
    decide +kernel
  have halias : symlinkMetadata aliasTree 40 "/work/alias" = .ok ["work", "alias"] := by
    decide +kernel
  have hdata : canonicalize aliasTree 40 "/work/alias" = .ok "/data" := by decide +kernel
  have hpopNew : popPath "/work/alias/out/new" = "/work/alias/out" := by decide +kernel
  have hpopOut : popPath "/work/alias/out" = "/work/alias" := by decide +kernel
  rw [existingAncestor_pop hnew (by decide +kernel : fileName _ = some "new"), hpopNew,
    existingAncestor_pop hout (by decide +kernel : fileName _ = some "out"), hpopOut,
    existingAncestor, halias, hdata]
  rfl

theorem compileLocked_outside_alias :
    compileLocked aliasTree 40 "/work" [vaultSource "/vault"] "alias/out/new" =
      .ok "/data/out/new" ∧
    ∃ place, aliasTree.lookup .planned 40 "/data/out/new" = .ok place ∧
      ∀ s ∈ [vaultSource "/vault"], ∃ source, aliasTree.lookup .real 40 s.path = .ok source ∧
        ¬ source <+: place ∧ ¬ place <+: source := by
  have hcompile : compileLocked aliasTree 40 "/work" [vaultSource "/vault"] "alias/out/new" =
      .ok "/data/out/new" := by
    have hjoin : joinPath "/work" "alias/out/new" = "/work/alias/out/new" := by decide +kernel
    rw [compileLocked, absoluteOutput, hjoin, existingAncestor_alias]
    decide +kernel
  refine ⟨hcompile, compileLocked_outside aliasTree 40 ?_ hcompile⟩
  intro s hs
  rw [List.mem_singleton.mp hs]
  decide +kernel

end Okc.App
