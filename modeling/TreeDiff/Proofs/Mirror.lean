import TreeDiff.Proofs.Simulation

/-!
# Computations that mirror each other

A map of computations that keeps answers and sequences of steps carries the computations of a monad
into another one. A computation there mirrors one here if it does what the image does, up to their
answers, which need not be of the same type: they are related, and whatever goes on in the same way
from related answers is the same.

* `Embedding`: the maps. `Embedding.Mirrors` is the relation of computations.
* `Embedding.Mirrors.foldlM`: loops with steps that mirror each other, at the same place of two
  lists.
* `Embedding.Mirrors.eq_map`: with equality as the relation, the computation is the image.
* `Embedding.mirroring`: the simulation of computations with the same answer.
  `Embedding.mirroring_self`: the image of a computation is related to it.
-/

namespace TreeDiff

variable {M N : Type → Type} [Monad M] [Monad N]

/-- A map of computations that keeps answers and sequences of steps. -/
structure Embedding (N M : Type → Type) [Monad N] [Monad M] where
  map : {γ : Type} → N γ → M γ
  map_pure : ∀ {γ : Type} (a : γ), map (pure a) = pure a
  map_bind : ∀ {γ γ' : Type} (y : N γ) (g : γ → N γ'),
    map (y >>= g) = map y >>= fun a => map (g a)

namespace Embedding

variable (φ : Embedding N M) {α α' β β' γ ε κ : Type}

/-- The computation `x` does what `y` does, with answers that are related by `R`. -/
def Mirrors (R : α → β → Prop) (x : M α) (y : N β) : Prop :=
  ∀ ⦃γ : Type⦄ (f : α → M γ) (g : β → N γ), (∀ a b, R a b → f a = φ.map (g b)) →
    x >>= f = φ.map (y >>= g)

namespace Mirrors

variable {φ} {R R' : α → β → Prop} {S : α' → β' → Prop} {x : M α} {y : N β}

theorem mono (h : φ.Mirrors R x y) (hR : ∀ a b, R a b → R' a b) : φ.Mirrors R' x y :=
  fun _ f g hfg => h f g fun a b hab => hfg a b (hR a b hab)

variable [LawfulMonad M] [LawfulMonad N]

theorem pure {a : α} {b : β} (h : R a b) : φ.Mirrors R (pure a) (pure b) := by
  intro γ f g hfg
  rw [pure_bind, pure_bind]
  exact hfg a b h

theorem bind {f : α → M α'} {g : β → N β'} (h : φ.Mirrors R x y)
    (hfg : ∀ a b, R a b → φ.Mirrors S (f a) (g b)) : φ.Mirrors S (x >>= f) (y >>= g) := by
  intro γ f' g' hfg'
  rw [bind_assoc, bind_assoc]
  exact h _ _ fun a b hab => hfg a b hab f' g' hfg'

omit [LawfulMonad M] [LawfulMonad N] in
/-- A computation mirrors itself. -/
theorem map_self (y : N γ) : φ.Mirrors Eq (φ.map y) y := by
  intro γ' f g hfg
  rw [φ.map_bind]
  exact bind_congr fun a => hfg a a rfl

theorem eq_map {x : M γ} {y : N γ} (h : φ.Mirrors Eq x y) : x = φ.map y := by
  have hpure : x >>= Pure.pure = φ.map (y >>= Pure.pure) :=
    h _ _ fun a b hab => by rw [φ.map_pure, hab]
  rwa [bind_pure, bind_pure] at hpure

/-- Loops over two lists of the same length mirror each other if their steps do. What is related
after a step may depend on the number of steps. -/
theorem foldlM {I : Nat → α → β → Prop} {f : α → κ → M α} {g : β → ε → N β} {ks : List κ}
    {es : List ε} {n : Nat} (hks : ks.length = n) (hes : es.length = n)
    (hstep : ∀ i k e a b, ks[i]? = some k → es[i]? = some e → I i a b →
      φ.Mirrors (I (i + 1)) (f a k) (g b e)) {a : α} {b : β} (hab : I 0 a b) :
    φ.Mirrors (I n) (ks.foldlM f a) (es.foldlM g b) := by
  subst hes
  induction es generalizing ks I a b with
  | nil =>
    rw [List.eq_nil_of_length_eq_zero hks]
    exact pure hab
  | cons e es ih =>
    obtain ⟨k, ks, rfl⟩ := List.exists_cons_of_length_eq_add_one hks
    rw [List.foldlM_cons, List.foldlM_cons]
    refine bind (hstep 0 k e a b rfl rfl hab) fun a' b' hab' => ?_
    -- the invariant of the other steps is that of the steps after the first one
    exact ih (I := fun i => I (i + 1)) (fun i k' e' a b hk he => hstep (i + 1) k' e' a b hk he) hab'
      (Nat.succ.inj hks)

/-- The same, if the second loop goes through its list from the end. -/
theorem foldrM {I : Nat → α → β → Prop} {f : α → κ → M α} {g : ε → β → N β} {ks : List κ}
    {es : List ε} {n : Nat} (hks : ks.length = n) (hes : es.length = n)
    (hstep : ∀ i k e a b, ks[i]? = some k → es.reverse[i]? = some e → I i a b →
      φ.Mirrors (I (i + 1)) (f a k) (g e b)) {a : α} {b : β} (hab : I 0 a b) :
    φ.Mirrors (I n) (ks.foldlM f a) (es.foldrM g b) := by
  have hloop : φ.Mirrors (I n) (ks.foldlM f a) (es.reverse.foldlM (fun b e => g e b) b) :=
    foldlM hks (List.length_reverse.trans hes) hstep hab
  rwa [List.foldlM_reverse] at hloop

end Mirrors

variable [LawfulMonad M] [LawfulMonad N]

/-- The simulation of computations that mirror each other with the same answer. -/
def mirroring : Simulation M N where
  Rel Q x y := φ.Mirrors (fun a b => a = b ∧ Q a) x y
  pure h := .pure ⟨rfl, h⟩
  bind hx hf := hx.bind fun a _ hab => hab.1 ▸ hf a hab.2

/-- The image of a computation is related to it. -/
theorem mirroring_self {x : M γ} {y : N γ} (h : φ.map y = x) :
    φ.mirroring.Rel (fun _ => True) x y := by
  rw [← h]
  exact (Mirrors.map_self y).mono fun _ _ hab => ⟨hab, trivial⟩

end Embedding

end TreeDiff
