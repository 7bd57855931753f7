import Mathlib.Algebra.GroupWithZero.Nat
import Mathlib.Data.List.Induction
import Mathlib.Order.WellFounded
/-!
# Systems and their runs

A system is a start state and a partial step function: `step s e = none` when
the event `e` cannot happen in `s`. A run is a list of events, so a theorem
about every run holds for every order in which the events can happen. The
rules below lift what one step keeps to what a whole run keeps.
-/

namespace Zar

structure System (σ ε : Type) where
  init : σ
  step : σ → ε → Option σ

namespace System
variable {σ ε : Type} {S : System σ ε} {ok ok' : σ → ε → Prop} {s s' s'' : σ} {es es' : List ε}

/-- The events `es`, each allowed by `ok` in the state it meets, take `s` to the
last state. -/
inductive Steps (S : System σ ε) (ok : σ → ε → Prop) (s : σ) : List ε → σ → Prop
  | nil : Steps S ok s [] s
  | snoc {es s' e s''} : Steps S ok s es s' → ok s' e → S.step s' e = some s'' → Steps S ok s (es ++ [e]) s''

/-- Runs from the start whose events are all allowed by `ok`. -/
def RunIf (S : System σ ε) (ok : σ → ε → Prop) (es : List ε) (s : σ) : Prop := S.Steps ok S.init es s

/-- Runs from the start. -/
def Run (S : System σ ε) (es : List ε) (s : σ) : Prop := S.RunIf (fun _ _ => True) es s

def Reachable (S : System σ ε) (s : σ) : Prop := ∃ es, S.Run es s

/-- No event that `ok` allows can happen. -/
def Rest (S : System σ ε) (ok : σ → ε → Prop) (s : σ) : Prop := ∀ e, ok s e → S.step s e = none

/-- The state after `es`, or `none` where an event is not allowed or cannot happen. -/
def exec (S : System σ ε) (ok : σ → ε → Prop) [∀ s e, Decidable (ok s e)] (s : σ) : List ε → Option σ
  | [] => some s
  | e :: es => if ok s e then (S.step s e).bind (S.exec ok · es) else none

/-! ## Composing runs -/

theorem Steps.one {e : ε} (ho : ok s e) (h : S.step s e = some s') : S.Steps ok s [e] s' := by
  simpa using Steps.snoc .nil ho h

theorem Steps.trans (h : S.Steps ok s es s') (h' : S.Steps ok s' es' s'') : S.Steps ok s (es ++ es') s'' := by
  induction h' with
  | nil => simpa using h
  | snoc _ ho hs ih => rw [← List.append_assoc]; exact .snoc ih ho hs

theorem Steps.mono (h : S.Steps ok s es s') (hok : ∀ s e, ok s e → ok' s e) : S.Steps ok' s es s' := by
  induction h with
  | nil => exact .nil
  | snoc _ ho hs ih => exact .snoc ih (hok _ _ ho) hs

theorem RunIf.run (h : S.RunIf ok es s) : S.Run es s := Steps.mono h (fun _ _ _ => trivial)

theorem Run.reachable (h : S.Run es s) : S.Reachable s := ⟨es, h⟩

theorem reachable_init : S.Reachable S.init := ⟨[], .nil⟩

theorem Reachable.steps (h : S.Reachable s) (hs : S.Steps ok s es s') : S.Reachable s' := by
  obtain ⟨es₀, h⟩ := h
  exact ⟨es₀ ++ es, Steps.trans h (hs.mono fun _ _ _ => trivial)⟩

theorem Reachable.step {e : ε} (h : S.Reachable s) (hs : S.step s e = some s') : S.Reachable s' := by
  obtain ⟨es, h⟩ := h
  exact ⟨es ++ [e], .snoc h trivial hs⟩

theorem Steps.of_exec [∀ s e, Decidable (ok s e)] (h : S.exec ok s es = some s') : S.Steps ok s es s' := by
  induction es generalizing s with
  | nil => cases h; exact .nil
  | cons e es ih =>
    simp only [exec] at h
    split at h
    · rename_i ho
      obtain ⟨m, hm, h⟩ := Option.bind_eq_some_iff.1 h
      exact (Steps.one ho hm).trans (ih h)
    · cases h

/-- Steps that can be computed, with what is decided about the last state. -/
theorem Steps.exists_of_exec (S : System σ ε) (ok : σ → ε → Prop) [∀ s e, Decidable (ok s e)] (s : σ) (es : List ε)
    (P : σ → Prop) [DecidablePred P] (h : (S.exec ok s es).any (fun s' => P s') = true) : ∃ s', S.Steps ok s es s' ∧ P s' := by
  obtain ⟨s', he, hp⟩ := (Option.any_eq_true _ _).1 h
  exact ⟨s', Steps.of_exec he, of_decide_eq_true hp⟩

theorem RunIf.exists_of_exec (S : System σ ε) (ok : σ → ε → Prop) [∀ s e, Decidable (ok s e)] (es : List ε) (P : σ → Prop)
    [DecidablePred P] (h : (S.exec ok S.init es).any (fun s => P s) = true) : ∃ s, S.RunIf ok es s ∧ P s :=
  Steps.exists_of_exec S ok S.init es P h

theorem Run.exists_of_exec (S : System σ ε) (es : List ε) (P : σ → Prop) [DecidablePred P]
    (h : (S.exec (fun _ _ => True) S.init es).any (fun s => P s) = true) : ∃ s, S.Run es s ∧ P s :=
  RunIf.exists_of_exec S (fun _ _ => True) es P h

/-! ## The events of a run -/

theorem Steps.concat {e : ε} (h : S.Steps ok s (es ++ [e]) s'') :
    ∃ s', S.Steps ok s es s' ∧ ok s' e ∧ S.step s' e = some s'' := by
  generalize hl : es ++ [e] = l at h
  cases h with
  | nil => simp at hl
  | snoc h ho hs =>
    obtain ⟨rfl, he⟩ := List.append_inj' hl rfl
    cases he
    exact ⟨_, h, ho, hs⟩

theorem Steps.split {front : List ε} (h : S.Steps ok s (front ++ es) s'') :
    ∃ s', S.Steps ok s front s' ∧ S.Steps ok s' es s'' := by
  induction es using List.reverseRecOn generalizing s'' with
  | nil => exact ⟨s'', by simpa using h, .nil⟩
  | append_singleton es e ih =>
    rw [← List.append_assoc] at h
    obtain ⟨m, h, ho, hs⟩ := h.concat
    obtain ⟨s', hf, h⟩ := ih h
    exact ⟨s', hf, .snoc h ho hs⟩

/-- The events determine the state. -/
theorem Steps.det (h : S.Steps ok s es s') (h' : S.Steps ok' s es s'') : s' = s'' := by
  induction h generalizing s'' with
  | nil =>
    generalize hl : [] = l at h'
    cases h' with
    | nil => rfl
    | snoc => simp at hl
  | snoc h ho hs ih =>
    obtain ⟨m, h', -, hs'⟩ := h'.concat
    obtain rfl := ih h'
    exact Option.some.inj (hs.symm.trans hs')

theorem Steps.uncons {e : ε} (h : S.Steps ok s (e :: es) s') : ∃ m, S.step s e = some m ∧ S.Steps ok m es s' := by
  obtain ⟨m, hm, htail⟩ := Steps.split (show S.Steps ok s ([e] ++ es) s' from h)
  obtain ⟨s₀, hnil, -, hstep⟩ := Steps.concat (show S.Steps ok s ([] ++ [e]) m from hm)
  have he : s₀ = s := hnil.det (show S.Steps ok s [] s from .nil)
  exact ⟨m, he ▸ hstep, htail⟩

theorem Steps.and (h : S.Steps ok s es s') (h' : S.Steps ok' s es s') :
    S.Steps (fun s e => ok s e ∧ ok' s e) s es s' := by
  induction h with
  | nil => exact .nil
  | snoc h ho hs ih =>
    obtain ⟨m, h', ho', -⟩ := h'.concat
    obtain rfl := h.det h'
    exact .snoc (ih h') ⟨ho, ho'⟩ hs

theorem Run.snoc_iff {e : ε} (h : S.Run es s) (hs : S.step s e = some s') :
    S.RunIf ok (es ++ [e]) s' ↔ S.RunIf ok es s ∧ ok s e := by
  constructor
  · intro hr
    obtain ⟨m, hm, ho, -⟩ := Steps.concat hr
    obtain rfl := Steps.det h hm
    exact ⟨hm, ho⟩
  · exact fun ⟨hr, ho⟩ => .snoc hr ho hs

/-! ## What a run puts out -/

/-- What the events put out, each in the state it meets. -/
def outputs {α : Type} (S : System σ ε) (out : σ → ε → Option α) (s : σ) : List ε → List α
  | [] => []
  | e :: es => (out s e).toList ++ ((S.step s e).map (S.outputs out · es)).getD []

theorem Steps.outputs_append {α : Type} (out : σ → ε → Option α) (h : S.Steps ok s es s') :
    S.outputs out s (es ++ es') = S.outputs out s es ++ S.outputs out s' es' := by
  induction es generalizing s with
  | nil =>
    have he : s' = s := h.det (show S.Steps ok s [] s from .nil)
    rw [he]
    rfl
  | cons e es ih =>
    obtain ⟨m, hstep, htail⟩ := h.uncons
    simp only [List.cons_append, outputs, hstep, Option.map_some, Option.getD_some, ih htail, List.append_assoc]

/-- A last event puts out what it puts out in the state behind the others. -/
theorem Steps.outputs_concat {α : Type} {out : σ → ε → Option α} (h : S.Steps ok s es s') {e : ε} (hs : S.step s' e = some s'') :
    S.outputs out s (es ++ [e]) = S.outputs out s es ++ (out s' e).toList := by
  rw [h.outputs_append out]
  simp [outputs, hs]

/-! ## What a run keeps -/

/-- A property every allowed step keeps holds at the end. -/
theorem Steps.inv (I : σ → Prop) (h : S.Steps ok s es s') (h0 : I s)
    (hs : ∀ s e s', I s → ok s e → S.step s e = some s' → I s') : I s' := by
  induction h with
  | nil => exact h0
  | snoc _ ho h ih => exact hs _ _ _ ih ho h

theorem RunIf.inv (I : σ → Prop) (h : S.RunIf ok es s) (h0 : I S.init)
    (hs : ∀ s e s', I s → ok s e → S.step s e = some s' → I s') : I s := Steps.inv I h h0 hs

theorem Reachable.inv (I : σ → Prop) (h : S.Reachable s) (h0 : I S.init)
    (hs : ∀ s e s', I s → S.step s e = some s' → I s') : I s := by
  obtain ⟨es, h⟩ := h
  exact Steps.inv I h h0 (fun s e s' hi _ => hs s e s' hi)

/-- What every state of an allowed run satisfies helps to allow its events. -/
theorem RunIf.mono_inv (I : σ → Prop) (h : S.RunIf ok es s) (h0 : I S.init)
    (hI : ∀ s e s', I s → ok s e → S.step s e = some s' → I s')
    (hok : ∀ s e s', I s → ok s e → S.step s e = some s' → ok' s e) : S.RunIf ok' es s := by
  unfold RunIf at h
  induction h with
  | nil => exact .nil
  | snoc h ho hs ih => exact .snoc ih (hok _ _ _ (h.inv I h0 hI) ho hs) hs

/-- A property of the events so far and the state. -/
theorem RunIf.inv_hist (I : List ε → σ → Prop) (h : S.RunIf ok es s) (h0 : I [] S.init)
    (hs : ∀ es s e s', S.RunIf ok es s → I es s → ok s e → S.step s e = some s' → I (es ++ [e]) s') : I es s := by
  unfold RunIf at h
  induction h with
  | nil => exact h0
  | snoc hr ho h ih => exact hs _ _ _ _ hr ih ho h

/-- Where a step keeps or restores `P` exactly if `P` held and `ok` allows the step, `P` holds
exactly behind the allowed runs. -/
theorem Run.iff_runIf (P : σ → Prop) (h : S.Run es s) (h0 : P S.init)
    (hs : ∀ s e s', S.Reachable s → S.step s e = some s' → (P s' ↔ P s ∧ ok s e)) : P s ↔ S.RunIf ok es s := by
  constructor
  · apply RunIf.inv_hist (fun es s => P s → S.RunIf ok es s) h (fun _ => .nil)
    intro es s e s' hr hi _ hstep hp
    obtain ⟨hps, ho⟩ := (hs s e s' hr.run.reachable hstep).1 hp
    exact .snoc (hi hps) ho hstep
  · intro hok
    apply hok.inv_hist (fun _ s => P s) h0
    intro es s e s' hr hp ho hstep
    exact (hs s e s' hr.run.reachable hstep).2 ⟨hp, ho⟩

/-- Where, as long as `P` holds, a step keeps it exactly if `ok` allows the step, `P` held all
along a run exactly if the run is allowed. -/
theorem Run.prefixes_iff_runIf (P : List ε → σ → Prop) (h : S.Run es s) (h0 : P [] S.init)
    (hs : ∀ es s e s', S.RunIf ok es s → P es s → S.step s e = some s' → (P (es ++ [e]) s' ↔ ok s e)) :
    (∀ es' s', es' <+: es → S.Run es' s' → P es' s') ↔ S.RunIf ok es s := by
  constructor
  · refine RunIf.inv_hist (fun es s => (∀ es' s', es' <+: es → S.Run es' s' → P es' s') → S.RunIf ok es s) h
      (fun _ => .nil) ?_
    intro es s e s' hr hi _ hstep hp
    have hok := hi fun es' s' hpre => hp es' s' (hpre.trans (List.prefix_append es [e]))
    have hps : P es s := hp es s (List.prefix_append es [e]) hr
    exact .snoc hok ((hs es s e s' hok hps hstep).1 (hp _ s' (List.prefix_refl _) (.snoc hr trivial hstep))) hstep
  · rintro hok es' s' ⟨behind, rfl⟩ hr
    obtain ⟨m, hfront, -⟩ := Steps.split hok
    obtain rfl := Steps.det hr hfront
    have hboth : S.RunIf ok es' s' ∧ P es' s' := by
      refine RunIf.inv_hist (fun es s => S.RunIf ok es s ∧ P es s) hfront ⟨.nil, h0⟩ ?_
      intro es s e s' hrun hi ho hstep
      exact ⟨.snoc hi.1 ho hstep, (hs es s e s' hi.1 hi.2 hstep).2 ho⟩
    exact hboth.2

/-- A reflexive and transitive relation between the states before and after every
allowed step relates the two ends of a run. -/
theorem Steps.rel (R : σ → σ → Prop) [Std.Refl R] [IsTrans σ R] (hr : S.Reachable s) (h : S.Steps ok s es s')
    (hs : ∀ s e s', S.Reachable s → ok s e → S.step s e = some s' → R s s') : R s s' := by
  induction h with
  | nil => exact refl_of R _
  | snoc h ho hstep ih => exact trans_of R ih (hs _ _ _ (hr.steps h) ho hstep)

/-! ## Runs of another system -/

/-- Where every step is a run of `T` between the images, so is every run. -/
theorem Steps.simulate {τ δ : Type} {T : System τ δ} (abs : σ → τ) (h : S.Steps ok s es s') (I : σ → Prop) (h0 : I s)
    (hI : ∀ s e s', I s → ok s e → S.step s e = some s' → I s')
    (hs : ∀ s e s', I s → ok s e → S.step s e = some s' → ∃ ds, T.Steps (fun _ _ => True) (abs s) ds (abs s')) :
    ∃ ds, T.Steps (fun _ _ => True) (abs s) ds (abs s') := by
  induction h with
  | nil => exact ⟨[], .nil⟩
  | snoc h ho hstep ih =>
    obtain ⟨ds, hd⟩ := ih
    obtain ⟨ds', hd'⟩ := hs _ _ _ (h.inv I h0 hI) ho hstep
    exact ⟨ds ++ ds', hd.trans hd'⟩

/-! ## Runs that end -/

/-- Steps that lower `μ` are at most `μ` many. -/
theorem Steps.length_le (μ : σ → Nat) (h : S.Steps ok s es s') (I : σ → Prop) (h0 : I s)
    (hs : ∀ s e s', I s → ok s e → S.step s e = some s' → I s' ∧ μ s' < μ s) : es.length + μ s' ≤ μ s := by
  induction h with
  | nil => simp
  | snoc h ho hstep ih =>
    have hi := h.inv I h0 fun s e s' hi ho hstep => (hs s e s' hi ho hstep).1
    have hlt := (hs _ _ _ hi ho hstep).2
    simp only [List.length_append, List.length_singleton]
    omega

/-- Steps that lower `μ` can be taken until none is left. -/
theorem exists_rest {β : Type} [LT β] [WellFoundedLT β] (μ : σ → β) (I : σ → Prop)
    (hs : ∀ s e s', I s → ok s e → S.step s e = some s' → I s' ∧ μ s' < μ s) (h0 : I s) :
    ∃ es s', S.Steps ok s es s' ∧ S.Rest ok s' := by
  induction h : μ s using WellFoundedLT.induction generalizing s with
  | ind n ih =>
    by_cases hr : S.Rest ok s
    · exact ⟨[], s, .nil, hr⟩
    · obtain ⟨e, he⟩ := Classical.not_forall.1 hr
      obtain ⟨ho, hne⟩ := Classical.not_imp.1 he
      obtain ⟨m, hm⟩ := Option.ne_none_iff_exists'.1 hne
      obtain ⟨hi, hlt⟩ := hs _ _ _ h0 ho hm
      obtain ⟨es, s', h', hrest⟩ := ih (μ m) (h ▸ hlt) hi rfl
      exact ⟨e :: es, s', (Steps.one ho hm).trans h', hrest⟩

/-- Steps that `ok` allows, without an end. -/
def Endless (S : System σ ε) (ok : σ → ε → Prop) (s : σ) : Prop :=
  ∃ f : Nat → σ, f 0 = s ∧ ∀ n, ∃ e, ok (f n) e ∧ S.step (f n) e = some (f (n + 1))

/-- Nor can they go on for ever. -/
theorem not_endless {β : Type} [LT β] [WellFoundedLT β] (μ : σ → β) (I : σ → Prop)
    (hs : ∀ s e s', I s → ok s e → S.step s e = some s' → I s' ∧ μ s' < μ s) (h0 : I s) : ¬ S.Endless ok s := by
  rintro ⟨f, rfl, hf⟩
  have hI : ∀ n, I (f n) := by
    intro n
    induction n with
    | zero => exact h0
    | succ n ih =>
      obtain ⟨e, ho, hstep⟩ := hf n
      exact (hs _ e _ ih ho hstep).1
  have hlt : ∀ n, μ (f (n + 1)) < μ (f n) := by
    intro n
    obtain ⟨e, ho, hstep⟩ := hf n
    exact (hs _ e _ (hI n) ho hstep).2
  obtain ⟨n, hn⟩ := WellFounded.not_rel_apply_succ (r := (· < ·)) fun n => μ (f n)
  exact hn (hlt n)

end System

/-- A sum over the parts of a state, one of which moves. -/
theorem sum_map_set {α : Type} {f : α → Nat} {l : List α} {i : Nat} {x : α} (h : l[i]? = some x) (y : α) :
    ((l.set i y).map f).sum + f x = (l.map f).sum + f y := by
  induction l generalizing i with
  | nil => cases h
  | cons z l ih =>
    cases i with
    | zero =>
      obtain rfl := Option.some.inj h
      simp only [List.set_cons_zero, List.map_cons, List.sum_cons]
      omega
    | succ i =>
      have hl := ih (i := i) h
      simp only [List.set_cons_succ, List.map_cons, List.sum_cons]
      omega

end Zar
