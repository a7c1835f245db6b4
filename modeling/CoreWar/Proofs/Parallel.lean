/-
# Loading rewritten programs

Two computations go side by side (`Parallel`) when both give results that
stand in a given relation, or both fail, the second with the error of the
first carried over by a map. Each way of putting computations together keeps
this: one after the other, over a list, and along a list with a state.

A rewriting that keeps the number of cells of a program keeps its place, so
loading the rewritten programs goes side by side with loading them as they
were as soon as linking does: the images have the same cells and the same
start, or the same statement fails and the causes correspond
(`Program.LinksAlike`). Loading then gives the same arena or the
corresponding error (`load_rewrite`).

Key definitions: `Parallel`, `LoadError.mapCause`, `Image.Same`,
`Program.LinksAlike`.
Key theorems: `Parallel.bind`, `Parallel.mapM`, `Parallel.foldlM`,
`plan_parallel`, `load_rewrite`.
-/
import Mathlib.Data.List.Forall2
import CoreWar.Loading

namespace CoreWar

/-! ### Computations side by side -/

section Parallel

variable {ε ε' δ δ' α β γ κ : Type}

/-- Both computations give results, which are related by `R`, or both fail, and `f` makes the
second error of the first. -/
inductive Parallel (f : ε → ε') (R : α → β → Prop) : Except ε α → Except ε' β → Prop
  | ok {a : α} {b : β} : R a b → Parallel f R (.ok a) (.ok b)
  | error {e : ε} {e' : ε'} : e' = f e → Parallel f R (.error e) (.error e')

namespace Parallel

variable {f : ε → ε'} {R : α → β → Prop} {S : γ → κ → Prop} {x : Except ε α} {y : Except ε' β}

/-- With equal results the computations differ by the map of errors only. -/
theorem eq_mapError {y : Except ε' α} (h : Parallel f Eq x y) : y = x.mapError f := by
  cases h with
  | ok hab => rw [hab]; rfl
  | error he => rw [he]; rfl

theorem map {g : α → γ} {k : β → κ} (h : Parallel f R x y) (hk : ∀ a b, R a b → S (g a) (k b)) :
    Parallel f S (x.map g) (y.map k) := by
  cases h with
  | ok hab => exact .ok (hk _ _ hab)
  | error he => exact .error he

theorem bind {g : α → Except ε γ} {k : β → Except ε' κ} (h : Parallel f R x y)
    (hk : ∀ a b, R a b → Parallel f S (g a) (k b)) : Parallel f S (x.bind g) (y.bind k) := by
  cases h with
  | ok hab => exact hk _ _ hab
  | error he => exact .error he

theorem mapError {u : ε → δ} {v : ε' → δ'} {c : δ → δ'} (h : Parallel f R x y)
    (hc : ∀ e, v (f e) = c (u e)) : Parallel c R (x.mapError u) (y.mapError v) := by
  cases h with
  | ok hab => exact .ok hab
  | @error e _ he => exact .error (by rw [he, hc e])

theorem mapM {g : α → Except ε γ} {k : β → Except ε' κ} {xs : List α} {ys : List β}
    (h : List.Forall₂ (fun a b => Parallel f S (g a) (k b)) xs ys) :
    Parallel f (List.Forall₂ S) (xs.mapM g) (ys.mapM k) := by
  induction h with
  | nil => exact .ok .nil
  | cons hab _ ih =>
    rw [List.mapM_cons, List.mapM_cons]
    refine hab.bind fun c d hcd => ih.bind fun cs ds hcds => ?_
    exact .ok (.cons hcd hcds)

/-- Two states that are related stay so along two lists that correspond. -/
theorem foldlM {g : γ → α → Except ε γ} {k : κ → β → Except ε' κ} {xs : List α} {ys : List β}
    (hstep : ∀ s t a b, S s t → R a b → Parallel f S (g s a) (k t b))
    (h : List.Forall₂ R xs ys) : ∀ {s : γ} {t : κ}, S s t →
      Parallel f S (xs.foldlM g s) (ys.foldlM k t) := by
  induction h with
  | nil => exact fun hst => .ok hst
  | cons hab _ ih =>
    intro s t hst
    rw [List.foldlM_cons, List.foldlM_cons]
    exact (hstep s t _ _ hst hab).bind fun s' t' hst' => ih hst'

end Parallel

end Parallel

/-! ### Loading -/

/-- The error with another cause, where a statement is at fault. -/
def LoadError.mapCause (c : StatementError → StatementError) : LoadError → LoadError
  | placement e => placement e
  | statement warrior index cause => statement warrior index (c cause)
  | emptyProgram warrior => emptyProgram warrior

structure Image.Same (i j : Image) : Prop where
  cells : j.cells = i.cells
  start : j.start = i.start

namespace Image

variable {images images' : List Image} (h : List.Forall₂ Same images images')

include h

theorem foldl_install_same (core : Core) :
    images'.foldl .install core = images.foldl .install core := by
  induction h generalizing core with
  | nil => rfl
  | @cons i j _ _ hij _ ih =>
    have hinstall : core.install j = core.install i := by rw [Core.install, Core.install, hij.cells]
    rw [List.foldl_cons, List.foldl_cons, hinstall, ih]

theorem warriors_same :
    (images'.zipIdx.map fun (image, i) => Warrior.start (UInt64.ofNat i) image.start) =
      images.zipIdx.map fun (image, i) => Warrior.start (UInt64.ofNat i) image.start := by
  -- only the list of starts is looked at
  have hwarriors (images : List Image) :
      (images.zipIdx.map fun (image, i) => Warrior.start (UInt64.ofNat i) image.start) =
        (images.map Image.start).zipIdx.map fun (a, i) => Warrior.start (UInt64.ofNat i) a := by
    simp [List.zipIdx_map, Function.comp_def]
  have hstarts : images'.map Image.start = images.map Image.start := by
    induction h with
    | nil => rfl
    | cons hij _ ih => rw [List.map_cons, List.map_cons, hij.start, ih]
  rw [hwarriors, hwarriors, hstarts]

end Image

/-- The two programs occupy as many cells, and wherever they are placed they have the same image
or fail at the same statement, where `c` makes the second cause of the first. -/
structure Program.LinksAlike (c : StatementError → StatementError) (p q : Program) : Prop where
  footprint : q.footprint = p.footprint
  link : ∀ size origin, Parallel (fun e : LinkFailure => (e.1, c e.2)) Image.Same
    (link size p origin) (link size q origin)

section Load

variable {c : StatementError → StatementError} {g : Program → Program}
  (hg : ∀ p : Program, p.LinksAlike c (g p)) (programs : List Program) (s : Settings)

include hg

/-- Programs that occupy as many cells have the same places. -/
theorem plan_parallel :
    Parallel (LoadError.mapCause c)
      (List.Forall₂ fun j j' => j' = { j with program := g j.program })
      (plan programs s) (plan (programs.map g) s) := by
  have hfoot (p : Program) : (g p).footprint = p.footprint := (hg p).footprint
  unfold plan
  simp only [List.isEmpty_map, List.findIdx?_map, List.map_map, Function.comp_def, hfoot]
  split
  · exact .error rfl
  split
  · exact .error rfl
  split
  · exact .error rfl
  split
  · exact .error rfl
  · rw [List.zip_map_left, List.zipIdx_map, List.map_map]
    refine .ok (List.forall₂_map_left_iff.mpr (List.forall₂_map_right_iff.mpr ?_))
    exact List.forall₂_same.mpr fun _ _ => rfl

/-- **What links alike loads alike.** -/
theorem load_rewrite :
    load (programs.map g) s = (load programs s).mapError (LoadError.mapCause c) := by
  refine Parallel.eq_mapError ((plan_parallel hg programs s).bind fun jobs jobs' hjobs => ?_)
  have hlink : Parallel (LoadError.mapCause c) (List.Forall₂ Image.Same)
      (jobs.mapM (Job.link s.coreSize.toNat)) (jobs'.mapM (Job.link s.coreSize.toNat)) := by
    refine Parallel.mapM (hjobs.imp fun j j' hj => ?_)
    subst hj
    exact ((hg j.program).link _ _).mapError fun _ => rfl
  refine hlink.map fun images images' himages => ?_
  rw [Image.foldl_install_same himages, Image.warriors_same himages]

end Load

end CoreWar
