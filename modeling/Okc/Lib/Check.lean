import Mathlib

/-!
# Fallible checks

A validator is a sequence of early returns: `reject bad e` is `if bad { return Err(e) }`, and a
loop over a slice is `scan`, whose body sees the elements visited before the current one. Every
accumulator such a loop keeps (`seen`, `previous`, a set of keys) is a function of those elements.
The lemmas below turn `= .ok ()` of such a sequence into the conjunction of the negated
conditions, so that what a validator guarantees is read off its text.

* `bind_eq_ok`, `bind_unit_eq_ok`, `reject_eq_ok`, `scan_eq_ok`: one lemma for each way of
  composing checks.
* `ScannedFrom P [] l`: `P` holds of every element together with the elements before it.
  `scanned_fresh` and `scanned_ascending` say what the two usual loop checks amount to: no key
  repeats, and the keys strictly increase.
* `foldlM_isOk`: a loop that keeps a state runs through iff the check it makes holds throughout.
-/

namespace Okc.Lib

variable {ε α β : Type}

/-- `if bad { return Err(e) }`. -/
def reject (bad : Prop) [Decidable bad] (e : ε) : Except ε Unit :=
  if bad then .error e else .ok ()

@[simp] theorem reject_eq_ok {bad : Prop} [Decidable bad] {e : ε} :
    reject bad e = .ok () ↔ ¬ bad := by
  unfold reject
  split <;> simp_all

@[simp] theorem bind_eq_ok {x : Except ε α} {f : α → Except ε β} {b : β} :
    (x >>= f) = .ok b ↔ ∃ a, x = .ok a ∧ f a = .ok b := by
  cases x with
  | error e => simp [bind, Except.bind]
  | ok a => simp [bind, Except.bind]

/-- A check followed by the rest: the check passes and the rest succeeds. -/
@[simp high] theorem bind_unit_eq_ok {x : Except ε Unit} {f : Unit → Except ε β} {b : β} :
    (x >>= f) = .ok b ↔ x = .ok () ∧ f () = .ok b := by
  rw [bind_eq_ok]
  exact ⟨fun ⟨(), h⟩ => h, fun h => ⟨(), h⟩⟩

theorem bind_eq_error {x : Except ε α} {f : α → Except ε β} {e : ε} :
    (x >>= f) = .error e ↔ x = .error e ∨ ∃ a, x = .ok a ∧ f a = .error e := by
  cases x <;> simp [bind, Except.bind]

/-- A wrapper put around a result. -/
theorem map_eq_ok {x : Except ε α} {f : α → β} (hf : Function.Injective f) {a : α} :
    x.map f = .ok (f a) ↔ x = .ok a := by
  cases x with
  | error e => simp [Except.map]
  | ok b => simpa [Except.map] using hf.eq_iff

@[simp] theorem pure_eq_ok {a b : α} : (pure a : Except ε α) = .ok b ↔ a = b := by
  simp [pure, Except.pure]

@[simp] theorem exists_unit {p : Unit → Prop} : (∃ u, p u) ↔ p () :=
  ⟨fun ⟨(), h⟩ => h, fun h => ⟨(), h⟩⟩

/-- A check of every element, one after the other. -/
theorem forM_eq_ok {f : α → Except ε Unit} {l : List α} :
    forM l f = .ok () ↔ ∀ x ∈ l, f x = .ok () := by
  induction l with
  | nil => simp
  | cons x xs ih => simp [ih]

/-- `map(..).collect::<Result<Vec<_>>>()`. -/
theorem mapM_eq_ok {f : α → Except ε β} {l : List α} {ys : List β} :
    l.mapM f = .ok ys ↔ List.Forall₂ (fun x y => f x = .ok y) l ys := by
  induction l generalizing ys with
  | nil =>
    rw [List.mapM_nil, pure_eq_ok, List.forall₂_nil_left_iff]
    exact eq_comm
  | cons x xs ih =>
    simp only [List.mapM_cons, bind_eq_ok, pure_eq_ok, List.forall₂_cons_left_iff, ih]
    exact ⟨fun ⟨y, hy, l, hl, he⟩ => ⟨y, l, hy, hl, he.symm⟩,
      fun ⟨y, l, hy, hl, he⟩ => ⟨y, hy, l, hl, he.symm⟩⟩

theorem exists_of_forall₂ {R : α → β → Prop} {as : List α} {bs : List β}
    (h : List.Forall₂ R as bs) : ∀ b ∈ bs, ∃ a ∈ as, R a b := by
  induction h with
  | nil => exact fun b hb => absurd hb List.not_mem_nil
  | cons hab _ ih =>
    intro b hb
    rcases List.mem_cons.mp hb with rfl | hb
    · exact ⟨_, List.mem_cons_self, hab⟩
    · obtain ⟨a, ha, hr⟩ := ih b hb
      exact ⟨a, List.mem_cons_of_mem _ ha, hr⟩

theorem mem_of_mapM_left {f : α → Except ε β} {l : List α} {ys : List β} (h : l.mapM f = .ok ys)
    {x : α} (hx : x ∈ l) : ∃ y ∈ ys, f x = .ok y := by
  have hforall := mapM_eq_ok.mp h
  clear h
  induction hforall with
  | nil => exact absurd hx List.not_mem_nil
  | cons hxy _ ih =>
    rcases List.mem_cons.mp hx with rfl | hx
    · exact ⟨_, List.mem_cons_self, hxy⟩
    · obtain ⟨y, hy, he⟩ := ih hx
      exact ⟨y, List.mem_cons_of_mem _ hy, he⟩

theorem mem_of_mapM_right {f : α → Except ε β} {l : List α} {ys : List β} (h : l.mapM f = .ok ys)
    {y : β} (hy : y ∈ ys) : ∃ x ∈ l, f x = .ok y := by
  have hforall := mapM_eq_ok.mp h
  clear h
  induction hforall with
  | nil => exact absurd hy List.not_mem_nil
  | cons hxy _ ih =>
    rcases List.mem_cons.mp hy with rfl | hy
    · exact ⟨_, List.mem_cons_self, hxy⟩
    · obtain ⟨x, hx, he⟩ := ih hy
      exact ⟨x, List.mem_cons_of_mem _ hx, he⟩

/-- The result at an index is that of the element there. -/
theorem getElem?_of_mapM {f : α → Except ε β} {l : List α} {ys : List β} (h : l.mapM f = .ok ys)
    {i : Nat} {x : α} (hi : l[i]? = some x) : ∃ y, f x = .ok y ∧ ys[i]? = some y := by
  have hforall := mapM_eq_ok.mp h
  clear h
  induction hforall generalizing i with
  | nil => exact absurd hi (by simp)
  | cons hxy _ ih =>
    cases i with
    | zero =>
      rw [List.getElem?_cons_zero] at hi
      obtain rfl := Option.some.inj hi
      exact ⟨_, hxy, List.getElem?_cons_zero⟩
    | succ i =>
      rw [List.getElem?_cons_succ] at hi ⊢
      exact ih hi

/-- What is read off the results is read off the inputs. -/
theorem map_of_mapM {γ : Type} {f : α → Except ε β} {l : List α} {ys : List β} {g : β → γ}
    {k : α → γ} (h : l.mapM f = .ok ys) (hgk : ∀ x ∈ l, ∀ y, f x = .ok y → g y = k x) :
    ys.map g = l.map k := by
  have hforall := mapM_eq_ok.mp h
  clear h
  induction hforall with
  | nil => rfl
  | cons hxy _ ih =>
    rw [List.map_cons, List.map_cons, hgk _ List.mem_cons_self _ hxy,
      ih fun x hx => hgk x (List.mem_cons_of_mem _ hx)]

/-- A body whose result is a function of what it visits, when it accepts it. -/
theorem mapM_eq_ok_map {f : α → Except ε β} {P : α → Prop} {g : α → β} {l : List α} {ys : List β}
    (h : ∀ x ∈ l, ∀ y, f x = .ok y ↔ P x ∧ y = g x) :
    l.mapM f = .ok ys ↔ (∀ x ∈ l, P x) ∧ ys = l.map g := by
  induction l generalizing ys with
  | nil =>
    rw [List.mapM_nil, pure_eq_ok]
    simp [eq_comm]
  | cons x xs ih =>
    have hxs : ∀ zs, xs.mapM f = .ok zs ↔ (∀ z ∈ xs, P z) ∧ zs = xs.map g := fun zs =>
      ih fun z hz => h z (List.mem_cons_of_mem _ hz)
    simp only [List.mapM_cons, bind_eq_ok, pure_eq_ok, h x List.mem_cons_self, hxs]
    constructor
    · rintro ⟨_, ⟨hP, rfl⟩, _, ⟨hall, rfl⟩, rfl⟩
      exact ⟨List.forall_mem_cons.mpr ⟨hP, hall⟩, rfl⟩
    · rintro ⟨hall, rfl⟩
      obtain ⟨hP, hall⟩ := List.forall_mem_cons.mp hall
      exact ⟨_, ⟨hP, rfl⟩, _, ⟨hall, rfl⟩, rfl⟩

theorem mapM_isOk {f : α → Except ε β} {l : List α} (h : ∀ x ∈ l, ∃ y, f x = .ok y) :
    ∃ ys, l.mapM f = .ok ys := by
  induction l with
  | nil => exact ⟨[], rfl⟩
  | cons x xs ih =>
    obtain ⟨y, hy⟩ := h x List.mem_cons_self
    obtain ⟨ys, hys⟩ := ih fun z hz => h z (List.mem_cons_of_mem _ hz)
    exact ⟨y :: ys, by simp [List.mapM_cons, hy, hys]⟩

/-! ## Loops -/

/-- A `for` loop whose body only checks; `before` holds the elements visited so far, the latest
first. -/
def scan (check : List α → α → Except ε Unit) : List α → List α → Except ε Unit
  | _, [] => .ok ()
  | before, x :: xs => do
    check before x
    scan check (x :: before) xs

/-- `P` holds of every element of the list together with the elements before it. -/
def ScannedFrom (P : List α → α → Prop) : List α → List α → Prop
  | _, [] => True
  | before, x :: xs => P before x ∧ ScannedFrom P (x :: before) xs

theorem scan_eq_ok {check : List α → α → Except ε Unit} {before l : List α} :
    scan check before l = .ok () ↔ ScannedFrom (fun b x => check b x = .ok ()) before l := by
  induction l generalizing before with
  | nil => simp [scan, ScannedFrom]
  | cons x xs ih => simp [scan, ScannedFrom, ih]

theorem scannedFrom_and {P Q : List α → α → Prop} {before l : List α} :
    ScannedFrom (fun b x => P b x ∧ Q b x) before l ↔
      ScannedFrom P before l ∧ ScannedFrom Q before l := by
  induction l generalizing before with
  | nil => simp [ScannedFrom]
  | cons x xs ih =>
    simp only [ScannedFrom, ih]
    tauto

/-- A check that does not look back holds of every element. -/
theorem scannedFrom_const {P : α → Prop} {before l : List α} :
    ScannedFrom (fun _ x => P x) before l ↔ ∀ x ∈ l, P x := by
  induction l generalizing before with
  | nil => simp [ScannedFrom]
  | cons x xs ih => simp [ScannedFrom, ih]

theorem scannedFrom_congr {P Q : List α → α → Prop} {before l : List α}
    (h : ∀ b x, P b x ↔ Q b x) : ScannedFrom P before l ↔ ScannedFrom Q before l := by
  induction l generalizing before with
  | nil => simp [ScannedFrom]
  | cons x xs ih => simp [ScannedFrom, ih, h]

theorem scannedFrom_map {P : List β → β → Prop} {f : α → β} {before l : List α} :
    ScannedFrom P (before.map f) (l.map f) ↔
      ScannedFrom (fun b x => P (b.map f) (f x)) before l := by
  induction l generalizing before with
  | nil => simp [ScannedFrom]
  | cons x xs ih => rw [List.map_cons, ScannedFrom, ScannedFrom, ← ih, List.map_cons]

/-- A check that looks back at every earlier element. -/
theorem scannedFrom_pairwise {R : α → α → Prop} {before l : List α} :
    ScannedFrom (fun b x => ∀ y ∈ b, R y x) before l ↔
      l.Pairwise R ∧ ∀ y ∈ before, ∀ x ∈ l, R y x := by
  induction l generalizing before with
  | nil => simp [ScannedFrom]
  | cons x xs ih =>
    simp only [ScannedFrom, ih, List.pairwise_cons, List.mem_cons, forall_eq_or_imp]
    constructor
    · rintro ⟨hb, hp, hx, hxs⟩
      exact ⟨⟨hx, hp⟩, fun y hy => ⟨hb y hy, hxs y hy⟩⟩
    · rintro ⟨⟨hx, hp⟩, hb⟩
      exact ⟨fun y hy => (hb y hy).1, hp, hx, fun y hy => (hb y hy).2⟩

theorem ScannedFrom.imp {P Q : List α → α → Prop} (h : ∀ b x, P b x → Q b x) :
    ∀ {l before : List α}, ScannedFrom P before l → ScannedFrom Q before l
  | [], _, _ => trivial
  | _ :: _, _, hs => ⟨h _ _ hs.1, hs.2.imp h⟩

/-- `previous.is_some_and(|previous| previous >= key(x))`. -/
def NotAfter [LinearOrder β] (key : α → β) (before : List α) (x : α) : Prop :=
  ∃ p ∈ before.head?, key x ≤ key p

instance [LinearOrder β] (key : α → β) (before : List α) (x : α) :
    Decidable (NotAfter key before x) :=
  inferInstanceAs (Decidable (∃ p ∈ before.head?, key x ≤ key p))

theorem not_notAfter [LinearOrder β] {key : α → β} {before : List α} {x : α} :
    ¬ NotAfter key before x ↔ ∀ p ∈ before.head?, key p < key x := by
  simp [NotAfter]

theorem scannedFrom_fresh {key : α → β} {before l : List α} :
    ScannedFrom (fun b x => key x ∉ b.map key) before l ↔
      (l.map key).Nodup ∧ ∀ x ∈ l, key x ∉ before.map key := by
  induction l generalizing before with
  | nil => simp [ScannedFrom]
  | cons x xs ih =>
    simp only [ScannedFrom, ih, List.map_cons, List.nodup_cons, List.mem_cons, not_or,
      forall_eq_or_imp]
    constructor
    · rintro ⟨hx, hnd, hs⟩
      refine ⟨⟨fun hm => ?_, hnd⟩, hx, fun y hy => (hs y hy).2⟩
      obtain ⟨y, hy, he⟩ := List.mem_map.mp hm
      exact (hs y hy).1 he
    · rintro ⟨⟨hx, hnd⟩, hn, hs⟩
      exact ⟨hn, hnd, fun y hy => ⟨fun he => hx (he ▸ List.mem_map_of_mem hy), hs y hy⟩⟩

/-- `if !seen.insert(key(x)) { return Err }`: no key repeats. -/
theorem scanned_fresh {key : α → β} {l : List α} :
    ScannedFrom (fun b x => key x ∉ b.map key) [] l ↔ (l.map key).Nodup := by
  rw [scannedFrom_fresh]
  simp

theorem scannedFrom_ascending [LinearOrder β] {key : α → β} {before l : List α} :
    ScannedFrom (fun b x => ∀ p ∈ b.head?, key p < key x) before l ↔
      (l.map key).Pairwise (· < ·) ∧ ∀ p ∈ before.head?, ∀ x ∈ l, key p < key x := by
  induction l generalizing before with
  | nil => simp [ScannedFrom]
  | cons x xs ih =>
    rw [ScannedFrom, ih, List.map_cons, List.pairwise_cons]
    simp only [List.mem_map, forall_exists_index, and_imp, forall_apply_eq_imp_iff₂,
      List.head?_cons, Option.mem_def, Option.some.injEq, forall_eq', List.mem_cons,
      forall_eq_or_imp]
    constructor
    · rintro ⟨hp, hs, hx⟩
      exact ⟨⟨hx, hs⟩, fun p hpe => ⟨hp p hpe, fun y hy => (hp p hpe).trans (hx y hy)⟩⟩
    · rintro ⟨⟨hx, hs⟩, hp⟩
      exact ⟨fun p hpe => (hp p hpe).1, hs, hx⟩

/-- `if previous.is_some_and(|previous| previous >= key(x)) { return Err }`: the keys strictly
increase. -/
theorem scanned_ascending [LinearOrder β] {key : α → β} {l : List α} :
    ScannedFrom (fun b x => ∀ p ∈ b.head?, key p < key x) [] l ↔
      (l.map key).Pairwise (· < ·) := by
  rw [scannedFrom_ascending]
  simp

/-! ## Loops with a state -/

variable {σ : Type}

/-- A fold whose state represents the visited elements runs through iff the check it amounts to
holds of every element together with the elements before it. -/
theorem foldlM_isOk (step : σ → α → Except ε σ) (P : List α → α → Prop)
    (Rep : σ → List α → Prop)
    (hcheck : ∀ s b x, Rep s b → ((∃ t, step s x = .ok t) ↔ P b x))
    (hrep : ∀ s b x t, Rep s b → step s x = .ok t → Rep t (x :: b))
    (l : List α) {s : σ} {before : List α} (hs : Rep s before) :
    (∃ t, l.foldlM step s = .ok t) ↔ ScannedFrom P before l := by
  induction l generalizing s before with
  | nil => simp [ScannedFrom]
  | cons x xs ih =>
    simp only [List.foldlM_cons, bind_eq_ok, ScannedFrom]
    constructor
    · rintro ⟨u, t, ht, hu⟩
      exact ⟨(hcheck s before x hs).mp ⟨t, ht⟩, (ih (hrep s before x t hs ht)).mp ⟨u, hu⟩⟩
    · rintro ⟨hP, hxs⟩
      obtain ⟨t, ht⟩ := (hcheck s before x hs).mpr hP
      obtain ⟨u, hu⟩ := (ih (hrep s before x t hs ht)).mpr hxs
      exact ⟨u, t, ht, hu⟩

theorem foldlM_represents {step : σ → α → Except ε σ} (Rep : σ → List α → Prop)
    (hrep : ∀ s b x t, Rep s b → step s x = .ok t → Rep t (x :: b))
    (l : List α) {s t : σ} {before : List α} (hs : Rep s before) (h : l.foldlM step s = .ok t) :
    Rep t (l.reverse ++ before) := by
  induction l generalizing s before with
  | nil =>
    cases h
    exact hs
  | cons x xs ih =>
    rw [List.foldlM_cons, bind_eq_ok] at h
    obtain ⟨u, hu, h⟩ := h
    rw [List.reverse_cons, List.append_assoc, List.singleton_append]
    exact ih (hrep s before x u hs hu) h

/-- What every turn keeps holds at the end. -/
theorem foldlM_keeps {step : σ → α → Except ε σ} {I : σ → Prop}
    (hkeep : ∀ s x t, I s → step s x = .ok t → I t) (l : List α) {s t : σ} (hs : I s)
    (h : l.foldlM step s = .ok t) : I t :=
  @foldlM_represents ε α σ step (fun s _ => I s) (fun s _ x t => hkeep s x t) l s t [] hs h

/-- A loop that records something of some elements, and nothing twice. -/
theorem foldlM_records {ρ : Type} {step : List ρ → α → Except ε (List ρ)} {Readable : α → Prop}
    {record : α → Option ρ}
    (hstep : ∀ s x t, step s x = .ok t ↔
      Readable x ∧ (∀ r ∈ record x, r ∉ s) ∧ t = (record x).toList ++ s)
    (l : List α) {s t : List ρ} : l.foldlM step s = .ok t ↔
      (∀ x ∈ l, Readable x) ∧ (l.filterMap record).Nodup ∧
        (∀ r ∈ l.filterMap record, r ∉ s) ∧ t = (l.filterMap record).reverse ++ s := by
  induction l generalizing s with
  | nil =>
    rw [List.foldlM_nil, pure_eq_ok]
    simp [eq_comm]
  | cons x xs ih =>
    rw [List.foldlM_cons, bind_eq_ok]
    simp only [hstep, ih, List.forall_mem_cons]
    cases hx : record x with
    | none =>
      rw [List.filterMap_cons_none hx]
      constructor
      · rintro ⟨_, ⟨hfirst, -, rfl⟩, hrest, hnodup, hfresh, rfl⟩
        exact ⟨⟨hfirst, hrest⟩, hnodup, hfresh, rfl⟩
      · rintro ⟨⟨hfirst, hrest⟩, hnodup, hfresh, rfl⟩
        exact ⟨s, ⟨hfirst, by simp, rfl⟩, hrest, hnodup, hfresh, rfl⟩
    | some r =>
      rw [List.filterMap_cons_some hx, List.nodup_cons, List.forall_mem_cons]
      simp only [Option.mem_some_iff, forall_eq', Option.toList_some, List.singleton_append,
        List.reverse_cons, List.append_assoc]
      constructor
      · rintro ⟨_, ⟨hfirst, hnew, rfl⟩, hrest, hnodup, hfresh, rfl⟩
        refine ⟨⟨hfirst, hrest⟩, ⟨fun hmem => ?_, hnodup⟩, ⟨hnew, fun r' hr' => ?_⟩, rfl⟩
        · exact hfresh r hmem List.mem_cons_self
        · exact fun hold => hfresh r' hr' (List.mem_cons_of_mem _ hold)
      · rintro ⟨⟨hfirst, hrest⟩, ⟨hnot, hnodup⟩, ⟨hnew, hfresh⟩, rfl⟩
        refine ⟨r :: s, ⟨hfirst, hnew, rfl⟩, hrest, hnodup, fun r' hr' hmem => ?_, rfl⟩
        rcases List.mem_cons.mp hmem with rfl | hold
        · exact hnot hr'
        · exact hfresh r' hr' hold

/-- What can be told from its record is recorded once if it is there once. -/
theorem nodup_filterMap {f : α → Option β} {g : β → α} {l : List α} (hl : l.Nodup)
    (h : ∀ a ∈ l, ∀ b ∈ f a, g b = a) : (l.filterMap f).Nodup := by
  induction l with
  | nil => exact List.nodup_nil
  | cons a l ih =>
    obtain ⟨hnot, hl⟩ := List.nodup_cons.mp hl
    have hrest := ih hl fun x hx => h x (List.mem_cons_of_mem _ hx)
    cases ha : f a with
    | none =>
      rw [List.filterMap_cons_none ha]
      exact hrest
    | some b =>
      rw [List.filterMap_cons_some ha]
      refine List.nodup_cons.mpr ⟨fun hmem => ?_, hrest⟩
      obtain ⟨x, hx, hb⟩ := List.mem_filterMap.mp hmem
      have hsame : x = a :=
        (h x (List.mem_cons_of_mem _ hx) b hb).symm.trans (h a List.mem_cons_self b ha)
      exact hnot (hsame ▸ hx)

/-! ## Sets -/

/-- A set collected from a slice has as many elements as the slice iff nothing repeats. -/
theorem card_toFinset_eq_length [DecidableEq β] {l : List β} :
    l.toFinset.card = l.length ↔ l.Nodup := by
  rw [List.card_toFinset]
  constructor
  · intro h
    have := (List.dedup_sublist l).eq_of_length h
    exact this ▸ List.nodup_dedup l
  · intro h
    rw [h.dedup]

end Okc.Lib
