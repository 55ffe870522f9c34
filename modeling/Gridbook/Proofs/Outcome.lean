/-
Gridbook/Proofs/Outcome.lean

Outcomes taken apart: an outcome that is composed of others succeeds exactly when
its parts do.

Main statements: `bind_eq_ok` for one step after another, `map_eq_ok` for a step
that cannot fail, `mapM_eq_ok` for a step on each member of a list.
-/
import Mathlib.Data.List.Forall2

namespace Gridbook.Outcome

variable {ε α β : Type}

theorem bind_eq_ok {x : Except ε α} {f : α → Except ε β} {b : β} :
    (x >>= f) = .ok b ↔ ∃ a, x = .ok a ∧ f a = .ok b := by
  constructor
  · intro h
    cases x with
    | error e => cases h
    | ok a => exact ⟨a, rfl, h⟩
  · rintro ⟨a, rfl, h⟩
    exact h

theorem bind_eq_error {x : Except ε α} {f : α → Except ε β} {e : ε} :
    (x >>= f) = .error e ↔ x = .error e ∨ ∃ a, x = .ok a ∧ f a = .error e := by
  cases x with
  | error e' =>
    constructor
    · intro h
      cases h
      exact .inl rfl
    · rintro (h | ⟨a, ha, -⟩)
      · cases h
        rfl
      · cases ha
  | ok a =>
    constructor
    · intro h
      exact .inr ⟨a, rfl, h⟩
    · rintro (h | ⟨b, hb, h⟩)
      · cases h
      · cases hb
        exact h

/-- Two outcomes fail alike where their first steps do, and the second ones after
them. -/
theorem bind_error_iff {γ δ : Type} {x : Except ε α} {y : Except ε γ} {f : α → Except ε β}
    {g : γ → Except ε δ} (hxy : ∀ e, x = .error e ↔ y = .error e)
    (hfg : ∀ a c, x = .ok a → y = .ok c → ∀ e, f a = .error e ↔ g c = .error e) (e : ε) :
    x >>= f = .error e ↔ y >>= g = .error e := by
  cases x with
  | error e' =>
    cases (hxy e').1 rfl
    exact ⟨fun h => congrArg _ (Except.error.inj h), fun h => congrArg _ (Except.error.inj h)⟩
  | ok a =>
    cases y with
    | error e' => cases (hxy e').2 rfl
    | ok c => exact hfg a c rfl rfl e

/-- The same with one first step. -/
theorem bind_error_congr {γ : Type} {x : Except ε α} {f : α → Except ε β} {g : α → Except ε γ}
    (h : ∀ a, x = .ok a → ∀ e, f a = .error e ↔ g a = .error e) (e : ε) :
    x >>= f = .error e ↔ x >>= g = .error e := by
  refine bind_error_iff (fun _ => Iff.rfl) (fun a c ha hc => ?_) e
  cases ha.symm.trans hc
  exact h a ha

/-- Whether an outcome is a given fault. -/
instance decidableEqError [DecidableEq ε] : (x : Except ε α) → (e : ε) → Decidable (x = .error e)
  | .ok _, _ => isFalse nofun
  | .error e', e => decidable_of_iff (e' = e) ⟨congrArg Except.error, Except.error.inj⟩

/-- A step matters only for what comes before it. -/
theorem bind_congr {x : Except ε α} {f g : α → Except ε β} (h : ∀ a, x = .ok a → f a = g a) :
    x >>= f = x >>= g := by
  cases x with
  | error e => rfl
  | ok a => exact h a rfl

theorem map_eq_error {x : Except ε α} {f : α → β} {e : ε} : x.map f = .error e ↔ x = .error e := by
  cases x with
  | error e' => simp [Except.map]
  | ok a => exact ⟨nofun, nofun⟩

theorem map_eq_ok {x : Except ε α} {f : α → β} {b : β} :
    x.map f = .ok b ↔ ∃ a, x = .ok a ∧ f a = b := by
  constructor
  · intro h
    cases x with
    | error e => cases h
    | ok a => exact ⟨a, rfl, Except.ok.inj h⟩
  · rintro ⟨a, rfl, rfl⟩
    rfl

/-- A part of a result that is seen belongs to a result. -/
theorem of_toOption_map {x : Except ε α} {f : α → β} {b : β}
    (h : (x.map f).toOption = some b) : ∃ a, x = .ok a ∧ f a = b := by
  cases x with
  | error e => cases h
  | ok a => exact ⟨a, rfl, Option.some.inj h⟩

/-- A step on each member of a list, where it is known what the steps give. -/
theorem mapM_of_forall {f : α → Except ε β} {g : α → β} {as : List α}
    (h : ∀ a ∈ as, f a = .ok (g a)) : as.mapM f = .ok (as.map g) := by
  induction as with
  | nil => rfl
  | cons a as ih =>
    rw [List.mapM_cons, h a List.mem_cons_self, ih fun b hb => h b (List.mem_cons_of_mem a hb)]
    rfl

theorem mapM_congr {f g : α → Except ε β} {as : List α} (h : ∀ a ∈ as, f a = g a) :
    as.mapM f = as.mapM g := by
  induction as with
  | nil => rfl
  | cons a as ih =>
    rw [List.mapM_cons, List.mapM_cons, h a List.mem_cons_self,
      ih fun b hb => h b (List.mem_cons_of_mem a hb)]

theorem mapM_eq_ok {f : α → Except ε β} {as : List α} {bs : List β} :
    as.mapM f = .ok bs ↔ List.Forall₂ (fun a b => f a = .ok b) as bs := by
  induction as generalizing bs with
  | nil =>
    rw [List.mapM_nil, List.forall₂_nil_left_iff]
    exact ⟨fun h => (Except.ok.inj h).symm, fun h => h ▸ rfl⟩
  | cons a as ih =>
    rw [List.mapM_cons, bind_eq_ok]
    constructor
    · rintro ⟨b, hb, h⟩
      obtain ⟨bs', hbs, h⟩ := bind_eq_ok.1 h
      cases h
      exact .cons hb (ih.1 hbs)
    · rintro (_ | ⟨hb, hbs⟩)
      exact ⟨_, hb, bind_eq_ok.2 ⟨_, ih.2 hbs, rfl⟩⟩

theorem exists_of_forall₂ {R : α → β → Prop} {as : List α} {bs : List β}
    (h : List.Forall₂ R as bs) {b : β} (hb : b ∈ bs) : ∃ a ∈ as, R a b := by
  induction h with
  | nil => cases hb
  | cons hstep _ ih =>
    rcases List.mem_cons.1 hb with rfl | hb
    · exact ⟨_, List.mem_cons_self, hstep⟩
    · obtain ⟨a, ha, hstep⟩ := ih hb
      exact ⟨a, List.mem_cons_of_mem _ ha, hstep⟩

theorem exists_of_mem_mapM {f : α → Except ε β} {as : List α} {bs : List β}
    (h : as.mapM f = .ok bs) {b : β} (hb : b ∈ bs) : ∃ a ∈ as, f a = .ok b :=
  exists_of_forall₂ (mapM_eq_ok.1 h) hb

theorem ok_of_mem_mapM {f : α → Except ε β} {as : List α} {bs : List β}
    (h : as.mapM f = .ok bs) {a : α} (ha : a ∈ as) : ∃ b ∈ bs, f a = .ok b := by
  have hall := mapM_eq_ok.1 h
  clear h
  induction hall with
  | nil => cases ha
  | cons hstep _ ih =>
    rcases List.mem_cons.1 ha with rfl | ha
    · exact ⟨_, List.mem_cons_self, hstep⟩
    · obtain ⟨b, hb, hstep⟩ := ih ha
      exact ⟨b, List.mem_cons_of_mem _ hb, hstep⟩

theorem exists_mapM_eq_ok {f : α → Except ε β} {as : List α} (h : ∀ a ∈ as, ∃ b, f a = .ok b) :
    ∃ bs, as.mapM f = .ok bs := by
  induction as with
  | nil => exact ⟨[], rfl⟩
  | cons a as ih =>
    obtain ⟨b, hb⟩ := h a List.mem_cons_self
    obtain ⟨bs, hbs⟩ := ih fun c hc => h c (List.mem_cons_of_mem a hc)
    exact ⟨b :: bs, mapM_eq_ok.2 (.cons hb (mapM_eq_ok.1 hbs))⟩

/-- Steps on the members of a list that fail, if at all, with one error: that is how they
fail together. -/
theorem mapM_eq_error_of_mem {f : α → Except ε β} {e : ε} {as : List α}
    (h : ∀ a ∈ as, (∃ b, f a = .ok b) ∨ f a = .error e) {a : α} (ha : a ∈ as)
    (hfail : f a = .error e) : as.mapM f = .error e := by
  induction as with
  | nil => cases ha
  | cons c as ih =>
    rw [List.mapM_cons]
    obtain ⟨hc, hrest⟩ := List.forall_mem_cons.1 h
    rcases hc with ⟨b, hb⟩ | hc
    · have ha : a ∈ as := by
        refine (List.mem_cons.1 ha).resolve_left ?_
        rintro rfl
        cases hb.symm.trans hfail
      rw [hb, ih hrest ha]
      rfl
    · rw [hc]
      rfl

/-- What steps on the members of a list give, seen through a map that tells what it
has been made of. -/
theorem map_of_mapM {γ : Type} {f : α → Except ε β} {g : β → γ} {h : α → γ} {as : List α}
    {bs : List β} (hbs : as.mapM f = .ok bs) (hstep : ∀ a b, f a = .ok b → g b = h a) :
    bs.map g = as.map h := by
  have hall := mapM_eq_ok.1 hbs
  clear hbs
  induction hall with
  | nil => rfl
  | cons hb _ ih => rw [List.map_cons, List.map_cons, ih, hstep _ _ hb]

/-- Two steps on each member of a list, of which the second one succeeds where the
first one does. -/
theorem exists_mapM_related {γ : Type} {f : α → Except ε β} {g : α → Except ε γ} {R : β → γ → Prop}
    {as : List α} {bs : List β} (h : as.mapM f = .ok bs)
    (hstep : ∀ a ∈ as, ∀ b, f a = .ok b → ∃ c, g a = .ok c ∧ R b c) :
    ∃ cs, as.mapM g = .ok cs ∧ List.Forall₂ R bs cs := by
  have hall := mapM_eq_ok.1 h
  clear h
  induction hall with
  | nil => exact ⟨[], rfl, .nil⟩
  | @cons a b as bs hb _ ih =>
    obtain ⟨c, hc, hbc⟩ := hstep a List.mem_cons_self b hb
    obtain ⟨cs, hcs, hrest⟩ := ih fun a ha => hstep a (List.mem_cons_of_mem _ ha)
    exact ⟨c :: cs, by rw [List.mapM_cons, hc, hcs]; rfl, .cons hbc hrest⟩

/-- Steps on the members of a list, one after another, fail where the first of them
fails. -/
theorem foldlM_eq_error {f : β → α → Except ε β} {as : List α} {b : β} {e : ε} :
    as.foldlM f b = .error e ↔
      ∃ before a after c, as = before ++ a :: after ∧ before.foldlM f b = .ok c ∧
        f c a = .error e := by
  induction as generalizing b with
  | nil =>
    refine ⟨nofun, ?_⟩
    rintro ⟨before, a, after, c, h, -⟩
    cases before <;> cases h
  | cons a as ih =>
    rw [List.foldlM_cons]
    constructor
    · intro h
      cases hstep : f b a with
      | error e' =>
        rw [hstep] at h
        exact ⟨[], a, as, b, rfl, rfl, hstep.trans h⟩
      | ok c =>
        rw [hstep] at h
        obtain ⟨before, a', after, d, rfl, hbefore, hfail⟩ := ih.1 h
        refine ⟨a :: before, a', after, d, rfl, ?_, hfail⟩
        rw [List.foldlM_cons, hstep]
        exact hbefore
    · rintro ⟨before, a', after, d, h, hbefore, hfail⟩
      cases before with
      | nil =>
        cases h
        cases hbefore
        rw [hfail]
        rfl
      | cons a'' before =>
        cases h
        rw [List.foldlM_cons] at hbefore
        obtain ⟨c, hstep, hbefore⟩ := bind_eq_ok.1 hbefore
        rw [hstep]
        exact ih.2 ⟨before, a', after, d, rfl, hbefore, hfail⟩

/-- A step that may give nothing, on each member of a list. -/
theorem exists_of_mem_mapM_some {f : α → Option β} {as : List α} {bs : List β}
    (h : as.mapM f = some bs) {b : β} (hb : b ∈ bs) : ∃ a ∈ as, f a = some b := by
  induction as generalizing bs with
  | nil =>
    cases h
    cases hb
  | cons a as ih =>
    rw [List.mapM_cons] at h
    obtain ⟨c, hc, h⟩ := Option.bind_eq_some_iff.1 h
    obtain ⟨cs, hcs, h⟩ := Option.bind_eq_some_iff.1 h
    cases h
    rcases List.mem_cons.1 hb with rfl | hb
    · exact ⟨a, List.mem_cons_self, hc⟩
    · obtain ⟨a', ha', hb⟩ := ih hcs hb
      exact ⟨a', List.mem_cons_of_mem a ha', hb⟩

theorem forall₂_of_mapM_some {f : α → Option β} {as : List α} {bs : List β}
    (h : as.mapM f = some bs) : List.Forall₂ (fun a b => f a = some b) as bs := by
  induction as generalizing bs with
  | nil =>
    cases h
    exact .nil
  | cons a as ih =>
    rw [List.mapM_cons] at h
    obtain ⟨b, hb, h⟩ := Option.bind_eq_some_iff.1 h
    obtain ⟨bs', hbs, h⟩ := Option.bind_eq_some_iff.1 h
    cases h
    exact .cons hb (ih hbs)

theorem length_of_mapM_some {f : α → Option β} {as : List α} {bs : List β}
    (h : as.mapM f = some bs) : bs.length = as.length :=
  (forall₂_of_mapM_some h).length_eq.symm

end Gridbook.Outcome
