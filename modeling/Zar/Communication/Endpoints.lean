import Zar.Communication.Connector
import Mathlib.Data.List.Perm.Basic
/-!
# Where the endpoints of a connector end

`asio_resolve_handler` returns behind an error only if there is a connect handler to
tell it to. Otherwise it goes on with the iterator at the end, as it does with a result
without endpoints, and `asio_connect_handler` increments that iterator.
-/

namespace Zar
namespace Connector

variable {c c' : Connector} {e : Event} {es : List Event} {strand handler : Bool}

def system (strand handler : Bool) : System Connector Event := ⟨{ strand := strand, handler := handler }, step⟩

/-- A resolve that fails has a connect handler to tell, and one that succeeds has an endpoint. -/
def Listed (c : Connector) : Event → Prop
  | .resolved _ none => c.handler = true
  | .resolved _ (some endpoints) => endpoints ≠ []
  | .connect _ _ | .asioResolve | .attempt _ _ | .connected _ => True

instance (c : Connector) : (e : Event) → Decidable (c.Listed e)
  | .resolved _ none => inferInstanceAs (Decidable (c.handler = true))
  | .resolved _ (some endpoints) => inferInstanceAs (Decidable (endpoints ≠ []))
  | .connect _ _ | .asioResolve | .attempt _ _ | .connected _ => inferInstanceAs (Decidable True)

/-- Behind a resolve that fails no `async_connect` starts. -/
def NoneStarts (c : Connector) (e : Event) : Prop :=
  ∀ i c', e = .resolved i none → c.step e = some c' → c'.connects = c.connects

/-- What an `async_connect` that is outstanding does by itself. -/
def Connecting (_ : Connector) : Event → Prop
  | .attempt _ _ | .connected _ => True
  | .connect _ _ | .asioResolve | .resolved _ _ => False

/-! ## The outstanding connects -/

theorem perm_eraseIdx {α : Type} {l : List α} {i : Nat} {a : α} (hi : l[i]? = some a) : (a :: l.eraseIdx i).Perm l := by
  obtain ⟨hlt, rfl⟩ := List.getElem?_eq_some_iff.1 hi
  exact List.getElem_cons_eraseIdx_perm hlt

theorem map_set_same {α β : Type} {f : α → β} {l : List α} {i : Nat} {a a' : α} (hi : l[i]? = some a) (hf : f a' = f a) :
    (l.set i a').map f = l.map f := by
  obtain ⟨hlt, rfl⟩ := List.getElem?_eq_some_iff.1 hi
  rw [List.map_set, hf, ← List.getElem_map f (h := by simpa using hlt)]
  exact List.set_getElem_self _

/-- An `async_connect` is bound to the iterator that it started from, and goes on from there. -/
def Bound (c : Connector) : Prop :=
  ∀ connect ∈ c.connects, connect.untried <:+ connect.iterator ∧ (connect.connected = true → connect.iterator ≠ [])

theorem Bound.asioConnect (h : c.Bound) (iterator : List Endpoint) : (c.asioConnect iterator).Bound := by
  intro connect hm
  rcases List.mem_append.1 hm with hm | hm
  · exact h connect hm
  · cases List.mem_singleton.1 hm
    exact ⟨List.suffix_refl _, fun h => absurd h Bool.false_ne_true⟩

theorem Bound.callHandler (h : c.Bound) (error : Bool) : (c.callHandler error).Bound := by
  unfold Connector.callHandler
  split <;> exact h

theorem Bound.step (h : c.Bound) (hs : c.step e = some c') : c'.Bound := by
  cases e with
  | connect hostname service =>
    cases hs
    unfold Connector.connect
    split <;> exact h
  | asioResolve =>
    cases step_cases hs with | asioResolve =>
    exact h
  | resolved i endpoints =>
    cases step_cases hs with | resolved =>
    unfold asioResolveHandler
    split
    · exact Bound.callHandler (c := { c with resolves := c.resolves.eraseIdx i }) h _
    · exact Bound.asioConnect (c := { c with resolves := c.resolves.eraseIdx i }) h _
  | attempt i success =>
    obtain ⟨connect, endpoint, untried, hi, -, hu, rfl⟩ := attempt_next hs
    intro connect' hm
    rcases List.mem_or_eq_of_mem_set hm with hm | rfl
    · exact h connect' hm
    · -- The endpoint that was tried is one of the iterator's.
      have hsuffix := (h connect (List.mem_of_getElem? hi)).1
      rw [hu] at hsuffix
      exact ⟨(List.suffix_cons _ _).trans hsuffix, fun _ => hsuffix.ne_nil (List.cons_ne_nil _ _)⟩
  | connected i =>
    obtain ⟨connect, -, -, rfl⟩ := connected_end hs
    have herase : Bound { c with connects := c.connects.eraseIdx i } :=
      fun connect hm => h connect (List.mem_of_mem_eraseIdx hm)
    rcases asioConnectHandler_cases { c with connects := c.connects.eraseIdx i } (!connect.connected) connect.iterator with
      ⟨-, he⟩ | ⟨-, -, he⟩ | ⟨-, -, he⟩ | ⟨-, endpoint, next, -, -, he⟩ <;> rw [he]
    · exact herase.callHandler _
    · exact herase
    · exact herase.callHandler _
    · exact herase.asioConnect _

/-! ## The end of the endpoints -/

/-- No iterator was incremented at the end, and none that is outstanding will be. -/
structure InList (c : Connector) : Prop where
  passedEnd : c.passedEnd = false
  iterator : [] ∉ c.connects.map (·.iterator)

theorem inList_congr (hp : c'.passedEnd = c.passedEnd) (hi : c'.connects.map (·.iterator) = c.connects.map (·.iterator)) :
    c'.InList ↔ c.InList := by
  constructor
  · rintro ⟨hp', hi'⟩
    exact ⟨by rw [← hp, hp'], by rwa [hi] at hi'⟩
  · rintro ⟨hp', hi'⟩
    exact ⟨by rw [hp, hp'], by rwa [hi]⟩

theorem asioConnect_inList (c : Connector) (iterator : List Endpoint) :
    (c.asioConnect iterator).InList ↔ c.InList ∧ iterator ≠ [] := by
  have hmem : [] ∉ (c.asioConnect iterator).connects.map (·.iterator) ↔
      [] ∉ c.connects.map (·.iterator) ∧ iterator ≠ [] := by
    simp only [asioConnect, List.map_append, List.map_singleton, List.mem_append, List.mem_singleton, not_or, ne_eq, eq_comm]
  constructor
  · rintro ⟨hp, hi⟩
    exact ⟨⟨hp, (hmem.1 hi).1⟩, (hmem.1 hi).2⟩
  · rintro ⟨⟨hp, hi⟩, hne⟩
    exact ⟨hp, hmem.2 ⟨hi, hne⟩⟩

theorem callHandler_inList (c : Connector) (error : Bool) : (c.callHandler error).InList ↔ c.InList := by
  unfold callHandler
  split
  · exact inList_congr rfl rfl
  · exact Iff.rfl

theorem asioConnectHandler_inList (c : Connector) (error : Bool) (iterator : List Endpoint) :
    (c.asioConnectHandler error iterator).InList ↔ c.InList ∧ (error = true → iterator ≠ []) := by
  rcases asioConnectHandler_cases c error iterator with
    ⟨rfl, he⟩ | ⟨rfl, rfl, he⟩ | ⟨rfl, ⟨endpoint, rfl⟩, he⟩ | ⟨rfl, endpoint, next, rfl, hne, he⟩ <;> rw [he]
  · simp [callHandler_inList]
  · exact ⟨fun h => absurd h.passedEnd (by simp), fun h => absurd rfl (h.2 rfl)⟩
  · simp [callHandler_inList]
  · simp [asioConnect_inList, hne]

theorem asioResolveHandler_inList (c : Connector) (error : Bool) (iterator : List Endpoint) :
    (c.asioResolveHandler error iterator).InList ↔ c.InList ∧ ((error && c.handler) = true ∨ iterator ≠ []) := by
  unfold asioResolveHandler
  split
  · rename_i h
    simp [callHandler_inList, h]
  · rename_i h
    simp [asioConnect_inList, h]

/-- The endpoints run out exactly where a resolve brings none. -/
theorem Bound.inList (hb : c.Bound) (hs : c.step e = some c') : c'.InList ↔ c.InList ∧ c.Listed e := by
  cases e with
  | connect hostname service =>
    cases hs
    have hc : (c.connect hostname service).InList ↔ c.InList := by
      unfold Connector.connect
      split <;> exact inList_congr rfl rfl
    simp [hc, Listed]
  | asioResolve =>
    cases step_cases hs with | @asioResolve hostname service posted =>
    have hc : (({ c with posted := posted }).asioResolve hostname service).InList ↔ c.InList := inList_congr rfl rfl
    simp [hc, Listed]
  | resolved i endpoints =>
    cases step_cases hs with | resolved =>
    have hc : InList { c with resolves := c.resolves.eraseIdx i } ↔ c.InList := inList_congr rfl rfl
    rw [asioResolveHandler_inList, hc]
    cases endpoints with
    | none => simp [Listed]
    | some endpoints => simp [Listed]
  | attempt i success =>
    obtain ⟨connect, endpoint, untried, hi, -, -, rfl⟩ := attempt_next hs
    have hc : InList { c with
        connects := c.connects.set i { connect with untried := untried, connected := success }
        attempts := c.attempts ++ [(endpoint, success)] } ↔ c.InList := inList_congr rfl (map_set_same hi rfl)
    simp [hc, Listed]
  | connected i =>
    obtain ⟨connect, hi, -, rfl⟩ := connected_end hs
    have hmem : ∀ it, it ∈ c.connects.map (·.iterator) ↔
        it = connect.iterator ∨ it ∈ (c.connects.eraseIdx i).map (·.iterator) := by
      intro it
      rw [← ((perm_eraseIdx hi).map (·.iterator)).mem_iff, List.map_cons, List.mem_cons]
    rw [asioConnectHandler_inList]
    constructor
    · rintro ⟨⟨hp, herase⟩, hend⟩
      -- The iterator of what ended was not at the end, or it was incremented now.
      refine ⟨⟨hp, fun h => ?_⟩, trivial⟩
      rcases (hmem []).1 h with h | h
      · cases hc : connect.connected with
        | true => exact (hb connect (List.mem_of_getElem? hi)).2 hc h.symm
        | false => exact hend (by simp [hc]) h.symm
      · exact herase h
    · rintro ⟨⟨hp, hlist⟩, -⟩
      exact ⟨⟨hp, fun h => hlist ((hmem []).2 (.inr h))⟩, fun _ h => hlist ((hmem []).2 (.inl h.symm))⟩

/-! ## The main result -/

theorem reachable_bound (h : (system strand handler).Reachable c) : c.Bound :=
  h.inv Bound (fun connect hm => by simp [system] at hm) fun _ _ _ hb hs => hb.step hs

theorem inList_iff_listed (h : (system strand handler).Run es c) :
    c.InList ↔ (system strand handler).RunIf Listed es c :=
  h.iff_runIf InList ⟨rfl, by simp [system]⟩ fun _ _ _ hr hs => (reachable_bound hr).inList hs

/-- An `async_connect` without endpoints ends, and its iterator is incremented. -/
theorem Bound.passes (hb : c.Bound) (hn : ¬ c.InList) :
    ∃ es c', (system strand handler).Steps Connecting c es c' ∧ c'.passedEnd = true := by
  cases hp : c.passedEnd with
  | true => exact ⟨[], c, .nil, hp⟩
  | false =>
    have hmem : [] ∈ c.connects.map (·.iterator) := by
      by_contra h
      exact hn ⟨hp, h⟩
    obtain ⟨connect, hm, hit⟩ := List.mem_map.1 hmem
    obtain ⟨i, hi⟩ := List.getElem?_of_mem hm
    obtain ⟨hsuffix, hconn⟩ := hb connect hm
    have hnot : connect.connected = false := by
      cases hc : connect.connected with
      | true => exact absurd hit (hconn hc)
      | false => rfl
    have huntried : connect.untried = [] := by
      rw [hit] at hsuffix
      exact List.suffix_nil.1 hsuffix
    refine ⟨[.connected i], { c with connects := c.connects.eraseIdx i, passedEnd := true },
      System.Steps.one trivial ?_, rfl⟩
    simp [system, Connector.step, hi, hnot, huntried, hit, asioConnectHandler]

/-- In every run, with a connect handler or without: exactly if no resolve failed without a
handler to tell, and none succeeded without an endpoint, no `async_connect` starts behind a
resolve that failed, and no iterator is incremented at the end, neither now nor when the
outstanding ones end. -/
theorem never_past_end (h : (system strand handler).Run es c) :
    ((system strand handler).RunIf NoneStarts es c ∧
      ∀ es' c', (system strand handler).Steps Connecting c es' c' → c'.passedEnd = false) ↔
    (system strand handler).RunIf Listed es c := by
  rw [← inList_iff_listed h]
  constructor
  · -- An iterator at the end is incremented at the latest when its `async_connect` ends.
    rintro ⟨-, hend⟩
    by_contra hn
    obtain ⟨es', c', hs, hp⟩ := (reachable_bound h.reachable).passes hn
    exact absurd (hend es' c' hs) (by simp [hp])
  · intro hl
    constructor
    · apply System.Steps.mono ((inList_iff_listed h).1 hl)
      rintro c e ho i c' rfl hs
      cases step_cases hs with | resolved =>
      have hh : c.handler = true := ho
      simp [asioResolveHandler, callHandler, hh]
    · intro es' c' hs
      have hb := reachable_bound h.reachable
      refine (hs.inv (fun x : Connector => x.Bound ∧ x.InList) ⟨hb, hl⟩ ?_).2.passedEnd
      rintro x e x' ⟨hb, hx⟩ ho hstep
      refine ⟨hb.step hstep, (hb.inList hstep).2 ⟨hx, ?_⟩⟩
      cases e with
      | attempt | connected => trivial
      | connect | asioResolve | resolved => exact ho.elim

/-- A resolve fails, and the next one brings two endpoints. -/
theorem never_past_end_handler : ∃ c, (system true true).Run [.connect [120] [121], .asioResolve, .resolved 0 none,
      .connect [120] [121], .asioResolve, .resolved 0 (some [⟨1, 1⟩, ⟨2, 1⟩]), .attempt 0 false] c ∧
    (system true true).RunIf NoneStarts [.connect [120] [121], .asioResolve, .resolved 0 none,
      .connect [120] [121], .asioResolve, .resolved 0 (some [⟨1, 1⟩, ⟨2, 1⟩]), .attempt 0 false] c ∧
    c.passedEnd = false := by
  have hexec : (system true true).exec Listed (system true true).init [.connect [120] [121], .asioResolve,
      .resolved 0 none, .connect [120] [121], .asioResolve, .resolved 0 (some [⟨1, 1⟩, ⟨2, 1⟩]), .attempt 0 false] =
        some _ := rfl
  have hrun := System.Steps.of_exec hexec
  have h := (never_past_end (System.RunIf.run hrun)).2 hrun
  exact ⟨_, System.RunIf.run hrun, h.1, h.2 [] _ .nil⟩

/-- Without a connect handler a resolve that failed starts an `async_connect` without endpoints, whose
handler increments the iterator at the end. -/
theorem passes_end : ∃ c c', (system false false).Run [.connect [120] [121], .resolved 0 none] c ∧
    c.connects = [⟨[], [], false⟩] ∧ c.step (.connected 0) = some c' ∧ c'.passedEnd = true := by
  have hexec : (system false false).exec (fun _ _ => True) (system false false).init
      [.connect [120] [121], .resolved 0 none] = some _ := rfl
  exact ⟨_, _, System.Steps.of_exec hexec, rfl, rfl, rfl⟩

end Connector
end Zar
