import Mathlib.Data.List.Forall2
import Mathlib.Data.List.Nodup
import Mathlib.Data.List.Pairwise

/-!
# Facts about lists

What the other modules need about lists beyond the library: a monadic map all of whose steps
succeed, the joining and splitting of lists at a separator, and what does not depend on the order of a list.
-/

namespace Procinsh

variable {α β γ : Type*}

/-- A monadic map whose steps all return a value returns their list. -/
theorem exists_mapM_eq_pure {m : Type _ → Type _} [Monad m] [LawfulMonad m] {β γ : Type _}
    {f : α → m β} {R : γ → α → Prop} {P : γ → β → Prop} {zs : List γ} {xs : List α}
    (h : List.Forall₂ R zs xs) (hf : ∀ z x, R z x → ∃ y, f x = pure y ∧ P z y) :
    ∃ ys, xs.mapM f = pure ys ∧ List.Forall₂ P zs ys := by
  induction h with
  | nil => exact ⟨[], List.mapM_nil, List.Forall₂.nil⟩
  | cons hzx _ ih =>
    obtain ⟨y, hy, hP⟩ := hf _ _ hzx
    obtain ⟨ys, hys, hPs⟩ := ih
    refine ⟨y :: ys, ?_, List.Forall₂.cons hP hPs⟩
    rw [List.mapM_cons, hy, pure_bind, hys, pure_bind]

/-- A monadic map whose steps return the values of a function returns the map of the function. -/
theorem mapM_eq_pure_map {m : Type _ → Type _} [Monad m] [LawfulMonad m] {β : Type _} {f : α → m β}
    {g : α → β} {xs : List α} (h : ∀ x ∈ xs, f x = pure (g x)) : xs.mapM f = pure (xs.map g) := by
  induction xs with
  | nil => exact List.mapM_nil
  | cons x xs ih =>
    rw [List.mapM_cons, h x List.mem_cons_self, pure_bind,
      ih fun y hy => h y (List.mem_cons_of_mem _ hy), pure_bind, List.map_cons]

/-- A monadic map returns if each of its steps does. -/
theorem exists_mapM_of_forall_mem {m : Type _ → Type _} [Monad m] [LawfulMonad m] {β : Type _}
    {f : α → m β} {P : α → β → Prop} {xs : List α} (h : ∀ x ∈ xs, ∃ y, f x = pure y ∧ P x y) :
    ∃ ys, xs.mapM f = pure ys ∧ List.Forall₂ P xs ys :=
  exists_mapM_eq_pure (R := fun z x => z = x ∧ x ∈ xs)
    (List.forall₂_same.mpr fun _ hx => ⟨rfl, hx⟩)
    fun _ x hzx => hzx.1 ▸ h x hzx.2

/-- In related lists every value of the second has a related one in the first. -/
theorem exists_left_of_forall₂ {R : α → β → Prop} {xs : List α} {ys : List β}
    (h : List.Forall₂ R xs ys) {y : β} (hy : y ∈ ys) : ∃ x ∈ xs, R x y := by
  induction h with
  | nil => cases hy
  | cons hxy _ ih =>
    rcases List.mem_cons.mp hy with rfl | hy
    · exact ⟨_, List.mem_cons_self, hxy⟩
    · obtain ⟨x, hx, hR⟩ := ih hy
      exact ⟨x, List.mem_cons_of_mem _ hx, hR⟩

/-- In related lists every value of the first has a related one in the second. -/
theorem exists_right_of_forall₂ {R : α → β → Prop} {xs : List α} {ys : List β}
    (h : List.Forall₂ R xs ys) {x : α} (hx : x ∈ xs) : ∃ y ∈ ys, R x y :=
  exists_left_of_forall₂ (R := fun y x => R x y) h.flip hx

/-- What holds between the members of one list holds between those related to them. -/
theorem pairwise_of_forall₂ {P : α → β → Prop} {S : α → α → Prop} {T : β → β → Prop} {xs : List α}
    {ys : List β} (h : List.Forall₂ P xs ys) (hxs : xs.Pairwise S)
    (hST : ∀ x x' y y', P x y → P x' y' → S x x' → T y y') : ys.Pairwise T := by
  induction h with
  | nil => exact List.Pairwise.nil
  | cons hxy hrest ih =>
    obtain ⟨hx, hxs⟩ := List.pairwise_cons.mp hxs
    refine List.Pairwise.cons (fun y' hy' => ?_) (ih hxs)
    obtain ⟨x', hx', hP⟩ := exists_left_of_forall₂ hrest hy'
    exact hST _ _ _ _ hxy hP (hx x' hx')

/-- Of two members of a list that are related pairwise, one comes first. -/
theorem rel_or_rel_of_pairwise {R : α → α → Prop} {l : List α} {a b : α} (hl : l.Pairwise R)
    (ha : a ∈ l) (hb : b ∈ l) (hab : a ≠ b) : R a b ∨ R b a := by
  have hsymm : Std.Symm fun a b => R a b ∨ R b a := ⟨fun _ _ h => h.symm⟩
  exact List.Pairwise.forall (R := fun a b => R a b ∨ R b a) (hl.imp Or.inl) ha hb hab

/-- Some members of a list, put before the others, are the list in another order. -/
theorem perm_append_filter_notMem [DecidableEq α] {l m : List α} (hl : l.Nodup) (hm : m.Nodup)
    (hsub : m ⊆ l) : (m ++ l.filter fun a => a ∉ m).Perm l := by
  have hnodup : (m ++ l.filter fun a => a ∉ m).Nodup := by
    apply List.nodup_append.mpr
    refine ⟨hm, hl.filter _, ?_⟩
    rintro a ha b hb rfl
    exact of_decide_eq_true (List.mem_filter.mp hb).2 ha
  apply (List.perm_ext_iff_of_nodup hnodup hl).mpr
  intro a
  rw [List.mem_append, List.mem_filter, decide_eq_true_eq]
  constructor
  · rintro (ha | ⟨ha, -⟩)
    · exact hsub ha
    · exact ha
  · intro ha
    by_cases ham : a ∈ m
    · exact .inl ham
    · exact .inr ⟨ha, ham⟩

/-- A monadic map returns what it returned if its steps do. -/
theorem mapM_eq_some_of_imp {β : Type _} {f g : α → Option β} {xs : List α} {ys : List β}
    (hfg : ∀ x y, f x = some y → g x = some y) (h : xs.mapM f = some ys) :
    xs.mapM g = some ys := by
  induction xs generalizing ys with
  | nil => exact h
  | cons x xs ih =>
    rw [List.mapM_cons] at h ⊢
    obtain ⟨y, hy, h⟩ := Option.bind_eq_some_iff.mp h
    obtain ⟨rest, hrest, h⟩ := Option.bind_eq_some_iff.mp h
    rw [hfg x y hy, ih hrest]
    exact h

/-- A loop returns what it returned if its steps do. -/
theorem foldlM_eq_some_of_imp {σ : Type _} {f g : σ → α → Option σ} {xs : List α} {s t : σ}
    (hfg : ∀ s x t, f s x = some t → g s x = some t) (h : xs.foldlM f s = some t) :
    xs.foldlM g s = some t := by
  induction xs generalizing s with
  | nil => exact h
  | cons x xs ih =>
    rw [List.foldlM_cons] at h ⊢
    obtain ⟨s', hs', h⟩ := Option.bind_eq_some_iff.mp h
    rw [hfg s x s' hs']
    exact ih h

/-- Lists related by the equality of a property have the same list of properties. -/
theorem map_eq_map_of_forall₂ {f : α → γ} {g : β → γ} {xs : List α} {ys : List β}
    (h : List.Forall₂ (fun x y => f x = g y) xs ys) : xs.map f = ys.map g := by
  rw [← List.forall₂_eq_eq_eq, List.forall₂_map_left_iff, List.forall₂_map_right_iff]
  exact h

/-- Related lists are the two sides of one list of related pairs. -/
theorem exists_pairs_of_forall₂ {R : α → β → Prop} {xs : List α} {ys : List β}
    (h : List.Forall₂ R xs ys) :
    ∃ zs : List (α × β), zs.map Prod.fst = xs ∧ zs.map Prod.snd = ys ∧ ∀ z ∈ zs, R z.1 z.2 := by
  induction h with
  | nil => exact ⟨[], rfl, rfl, by simp⟩
  | cons hxy _ ih =>
    obtain ⟨zs, rfl, rfl, hzs⟩ := ih
    exact ⟨(_, _) :: zs, rfl, rfl, List.forall_mem_cons.mpr ⟨hxy, hzs⟩⟩

/-- A separator that does not occur before it splits a list in one way. -/
theorem append_cons_inj_of_notMem {c : α} {xs ys l m : List α} (hx : c ∉ xs) (hy : c ∉ ys)
    (h : xs ++ c :: l = ys ++ c :: m) : xs = ys ∧ l = m := by
  induction xs generalizing ys with
  | nil =>
    cases ys with
    | nil => exact ⟨rfl, (List.cons.inj h).2⟩
    | cons y ys => exact absurd ((List.cons.inj h).1 ▸ List.mem_cons_self) hy
  | cons x xs ih =>
    cases ys with
    | nil => exact absurd ((List.cons.inj h).1 ▸ List.mem_cons_self) hx
    | cons y ys =>
      obtain ⟨rfl, htail⟩ := List.cons.inj h
      rw [List.mem_cons, not_or] at hx hy
      obtain ⟨rfl, rfl⟩ := ih hx.2 hy.2 htail
      exact ⟨rfl, rfl⟩

/-- A function that goes through the separator goes through joined lists. -/
theorem apply_intercalate {f : List α → List β} {sep : List α} {sep' : List β} (hnil : f [] = [])
    (hsep : ∀ xs ys, f (xs ++ (sep ++ ys)) = f xs ++ (sep' ++ f ys)) (parts : List (List α)) :
    f (sep.intercalate parts) = sep'.intercalate (parts.map f) := by
  induction parts with
  | nil => exact hnil
  | cons part parts ih =>
    cases parts with
    | nil => rw [List.intercalate_singleton, List.map_singleton, List.intercalate_singleton]
    | cons next parts =>
      have hcons : sep.intercalate (part :: next :: parts) =
          part ++ (sep ++ sep.intercalate (next :: parts)) := by
        rw [List.intercalate_cons_cons, List.append_assoc]
      rw [hcons, hsep, ih]
      simp only [List.map_cons, List.intercalate_cons_cons, List.append_assoc]

/-- Joined lists are the first list, and the others with a separator in front of each. -/
theorem intercalate_cons (sep : α) (part : List α) (parts : List (List α)) :
    [sep].intercalate (part :: parts) = part ++ parts.flatMap fun later => sep :: later := by
  induction parts generalizing part with
  | nil => rw [List.intercalate_singleton, List.flatMap_nil, List.append_nil]
  | cons next parts ih =>
    rw [List.intercalate_cons_cons, ih, List.flatMap_cons, List.append_assoc,
      List.singleton_append, List.cons_append]

/-- What is neither the separator nor in one of the lists is not in the joined list. -/
theorem notMem_intercalate {c sep : α} {parts : List (List α)} (hsep : c ≠ sep)
    (h : ∀ part ∈ parts, c ∉ part) : c ∉ [sep].intercalate parts := by
  cases parts with
  | nil => exact List.not_mem_nil
  | cons part parts =>
    rw [intercalate_cons, List.mem_append]
    rintro (hc | hc)
    · exact h part List.mem_cons_self hc
    · obtain ⟨later, hlater, hc⟩ := List.mem_flatMap.mp hc
      rcases List.mem_cons.mp hc with rfl | hc
      · exact hsep rfl
      · exact h later (List.mem_cons_of_mem part hlater) hc

/-- Items that are kept, each as it is mapped. -/
theorem filterMap_sublist_map {f : α → Option β} {g : α → β} (h : ∀ a b, f a = some b → b = g a)
    (l : List α) : (l.filterMap f).Sublist (l.map g) := by
  induction l with
  | nil => exact List.Sublist.refl _
  | cons a l ih =>
    cases hf : f a with
    | none =>
      rw [List.filterMap_cons_none hf]
      exact ih.cons _
    | some b =>
      rw [List.filterMap_cons_some hf, h a b hf]
      exact ih.cons_cons _

/-- The only value with a property is found in whatever order the list is. -/
theorem find?_eq_of_perm {p : α → Bool} {xs ys : List α} (h : xs.Perm ys)
    (hunique : ∀ x ∈ xs, ∀ y ∈ xs, p x = true → p y = true → x = y) : xs.find? p = ys.find? p := by
  cases hfind : ys.find? p with
  | none =>
    rw [List.find?_eq_none] at hfind ⊢
    exact fun x hx => hfind x (h.mem_iff.mp hx)
  | some y =>
    have hy : y ∈ xs := h.mem_iff.mpr (List.mem_of_find?_eq_some hfind)
    have hpy : p y = true := List.find?_some hfind
    cases hfind' : xs.find? p with
    | none => exact absurd hpy (List.find?_eq_none.mp hfind' y hy)
    | some x =>
      rw [hunique x (List.mem_of_find?_eq_some hfind') y hy (List.find?_some hfind') hpy]

/-- Replacing an element of a list replaces its image among the images that exist. -/
theorem perm_filterMap_set {f : α → Option β} {l : List α} {i : ℕ} {a : α} (b : α)
    (h : l[i]? = some a) :
    ((f a).toList ++ (l.set i b).filterMap f).Perm ((f b).toList ++ l.filterMap f) := by
  have hcons : ∀ (c : α) (l : List α), (c :: l).filterMap f = (f c).toList ++ l.filterMap f := by
    intro c l
    cases hc : f c with
    | none => rw [List.filterMap_cons_none hc]; rfl
    | some d => rw [List.filterMap_cons_some hc]; rfl
  induction l generalizing i with
  | nil => simp at h
  | cons c l ih =>
    cases i with
    | zero =>
      obtain rfl : c = a := by simpa using h
      rw [List.set_cons_zero, hcons, hcons]
      exact List.perm_append_comm_assoc _ _ _
    | succ i =>
      rw [List.set_cons_succ, hcons, hcons]
      refine (List.perm_append_comm_assoc _ _ _).trans ?_
      exact ((ih (by simpa using h)).append_left _).trans (List.perm_append_comm_assoc _ _ _)

/-- In a list in order, what satisfies a condition that holds downwards comes first. -/
theorem takeWhile_eq_filter {R : α → α → Prop} {p : α → Bool} {l : List α} (hl : l.Pairwise R)
    (hp : ∀ a ∈ l, ∀ b ∈ l, R a b → p b → p a) : l.takeWhile p = l.filter p := by
  induction l with
  | nil => rfl
  | cons a l ih =>
    obtain ⟨ha, hl⟩ := List.pairwise_cons.mp hl
    by_cases hpa : p a
    · rw [List.takeWhile_cons_of_pos hpa, List.filter_cons_of_pos hpa,
        ih hl fun b hb c hc => hp b (List.mem_cons_of_mem _ hb) c (List.mem_cons_of_mem _ hc)]
    · rw [List.takeWhile_cons_of_neg hpa, List.filter_cons_of_neg hpa, eq_comm,
        List.filter_eq_nil_iff]
      exact fun b hb hpb =>
        hpa (hp a List.mem_cons_self b (List.mem_cons_of_mem _ hb) (ha b hb) hpb)

/-- In such a list, what is left satisfies the opposite. -/
theorem drop_eq_filter_not {R : α → α → Prop} {p : α → Bool} {l : List α} (hl : l.Pairwise R)
    (hp : ∀ a ∈ l, ∀ b ∈ l, R a b → p b → p a) :
    l.drop (l.takeWhile p).length = l.filter (!p ·) := by
  induction l with
  | nil => rfl
  | cons a l ih =>
    obtain ⟨ha, hl⟩ := List.pairwise_cons.mp hl
    by_cases hpa : p a
    · rw [List.takeWhile_cons_of_pos hpa, List.length_cons, List.drop_succ_cons,
        List.filter_cons_of_neg (by simpa using hpa),
        ih hl fun b hb c hc => hp b (List.mem_cons_of_mem _ hb) c (List.mem_cons_of_mem _ hc)]
    · rw [List.takeWhile_cons_of_neg hpa, List.length_nil, List.drop_zero, eq_comm,
        List.filter_eq_self]
      intro b hb
      rcases List.mem_cons.mp hb with rfl | hb'
      · simpa using hpa
      · simpa using fun hpb => hpa (hp a List.mem_cons_self b hb (ha b hb') hpb)

/-- What is found in a list in order comes before all others that could have been found. -/
theorem rel_of_find?_eq_some {R : α → α → Prop} {p : α → Bool} {l : List α} {a b : α}
    (hl : l.Pairwise R) (h : l.find? p = some a) (hb : b ∈ l) (hpb : p b) : b = a ∨ R a b := by
  obtain ⟨-, before, later, rfl, hbefore⟩ := List.find?_eq_some_iff_append.mp h
  rcases List.mem_append.mp hb with hb | hb
  · exact absurd hpb (by simpa using hbefore b hb)
  · rcases List.mem_cons.mp hb with rfl | hb
    · exact Or.inl rfl
    · exact Or.inr ((List.pairwise_cons.mp (List.pairwise_append.mp hl).2.1).1 b hb)

/-- An occurrence in a list is its last one or lies before the end. -/
theorem eq_or_exists_of_concat_eq {a b : α} {xs ys zs : List α} (h : xs ++ [a] = ys ++ b :: zs) :
    (xs = ys ∧ a = b) ∨ ∃ ws, xs = ys ++ b :: ws := by
  rcases List.eq_nil_or_concat zs with rfl | ⟨ws, c, rfl⟩
  · obtain ⟨hxs, hab⟩ := List.append_inj' h rfl
    exact Or.inl ⟨hxs, List.singleton_inj.mp hab⟩
  · rw [List.concat_eq_append, ← List.cons_append, ← List.append_assoc] at h
    exact Or.inr ⟨ws, List.append_inj_left' h rfl⟩

/-- An item is the only one with its key, if no two items have the same key. -/
theorem filter_key_eq_singleton {κ : Type*} [DecidableEq κ] {f : α → κ} {xs : List α} {a : α}
    (h : (xs.map f).Nodup) (ha : a ∈ xs) : xs.filter (fun b => f b = f a) = [a] := by
  induction xs with
  | nil => exact absurd ha List.not_mem_nil
  | cons x xs ih =>
    rw [List.map_cons, List.nodup_cons] at h
    rcases List.mem_cons.mp ha with rfl | ha
    · rw [List.filter_cons_of_pos (by simp), List.filter_eq_nil_iff.mpr]
      exact fun b hb => by simpa using fun heq => h.1 (List.mem_map.mpr ⟨b, hb, heq⟩)
    · have hne : f x ≠ f a := fun heq => h.1 (List.mem_map.mpr ⟨a, ha, heq.symm⟩)
      rw [List.filter_cons_of_neg (by simpa using hne), ih h.2 ha]

end Procinsh
