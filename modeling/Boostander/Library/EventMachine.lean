import Mathlib

/-! Machines driven by events. An event that cannot occur in a state has no
successor there. The history of a run is the list of its events, so whatever is
observed along a run is a function of that list. -/
namespace Boostander.Library

/-- One partial step for each event. -/
structure EventMachine (σ ε : Type*) where
  step : ε → σ → Option σ

namespace EventMachine
variable {σ ε : Type*} (m : EventMachine σ ε)

/-- Execute a whole history; `none` when some event of it cannot occur. -/
def run : List ε → σ → Option σ
  | [], s => some s
  | e :: es, s => (m.step e s).bind (run es)

/-- The runs from `s` in which every event meets `ok` in the state it occurs in. -/
inductive Path (ok : σ → ε → Prop) (s : σ) : List ε → σ → Prop where
  | start : Path ok s [] s
  | next {h : List ε} {t u : σ} {e : ε} :
      Path ok s h t → ok t e → m.step e t = some u → Path ok s (h ++ [e]) u

/-- Every history, with no condition on its events. -/
abbrev Reaches (s : σ) (h : List ε) (t : σ) : Prop := m.Path (fun _ _ => True) s h t

/-- Some event of the history met `p` in the state it occurred in, and no event
that meets `q` came after it. -/
def Since (s : σ) (p : σ → ε → Prop) (q : ε → Prop) (h : List ε) : Prop :=
  ∃ k e l u, h = k ++ e :: l ∧ m.run k s = some u ∧ p u e ∧ ∀ e' ∈ l, ¬q e'

/-- What is seen of a run, event by event, each with the states before and after it. -/
def observed {β : Type*} (see : σ → ε → σ → List β) : List ε → σ → List β
  | [], _ => []
  | e :: es, s =>
    match m.step e s with
    | none => []
    | some t => see s e t ++ observed see es t

variable {m}

private theorem Path.append {ok : σ → ε → Prop} {s t u : σ} {h k : List ε}
    (hp : m.Path ok s h t) (hq : m.Path ok t k u) : m.Path ok s (h ++ k) u := by
  induction hq with
  | start => simpa using hp
  | next _ he hs ih =>
    rw [← List.append_assoc]
    exact .next ih he hs

/-- The invariant rule: what holds at the start and is kept by each permitted
event holds of every history together with the state it ends in. -/
theorem Path.invariant {ok : σ → ε → Prop} {s t : σ} {h : List ε}
    (hp : m.Path ok s h t) (I : List ε → σ → Prop) (h₀ : I [] s)
    (hstep : ∀ h t u e, I h t → ok t e → m.step e t = some u → I (h ++ [e]) u) : I h t := by
  induction hp with
  | start => exact h₀
  | next _ he hs ih => exact hstep _ _ _ _ ih he hs

theorem run_append (k l : List ε) (s : σ) : m.run (k ++ l) s = (m.run k s).bind (m.run l) := by
  induction k generalizing s with
  | nil => rfl
  | cons e k ih =>
    cases he : m.step e s with
    | none => simp [run, he]
    | some t => simpa [run, he] using ih t

theorem run_singleton {e : ε} {s t : σ} (h : m.step e s = some t) : m.run [e] s = some t := by
  rw [run, h]
  rfl

/-- A history that executes also executes up to each of its events. -/
theorem run_prefix {k h : List ε} {s t : σ} (hk : k <+: h) (hr : m.run h s = some t) :
    ∃ u, m.run k s = some u := by
  obtain ⟨l, rfl⟩ := hk
  rw [run_append] at hr
  obtain ⟨u, hu, -⟩ := Option.bind_eq_some_iff.mp hr
  exact ⟨u, hu⟩

theorem run_concat {k : List ε} {e : ε} {s u : σ} :
    m.run (k ++ [e]) s = some u ↔ ∃ t, m.run k s = some t ∧ m.step e t = some u := by
  rw [run_append, Option.bind_eq_some_iff]
  simp [run]

/-- An executed history of events that are all permitted is a run. -/
theorem path_of_run {p : ε → Prop} {s t : σ} {h : List ε} (hr : m.run h s = some t)
    (hp : ∀ e ∈ h, p e) : m.Path (fun _ e => p e) s h t := by
  induction h generalizing s with
  | nil =>
    obtain rfl : s = t := Option.some.inj hr
    exact .start
  | cons e h ih =>
    obtain ⟨u, hu, hr⟩ := Option.bind_eq_some_iff.mp hr
    obtain ⟨he, hp⟩ := List.forall_mem_cons.mp hp
    exact (Path.next .start he hu).append (ih hr hp)

theorem run_of_path {ok : σ → ε → Prop} {s t : σ} {h : List ε} (hp : m.Path ok s h t) :
    m.run h s = some t := by
  induction hp with
  | start => rfl
  | next _ _ hs ih => exact run_concat.mpr ⟨_, ih, hs⟩

theorem observed_concat {β : Type*} {see : σ → ε → σ → List β} {h : List ε} {e : ε} {s t u : σ}
    (hr : m.run h s = some t) (hs : m.step e t = some u) :
    m.observed see (h ++ [e]) s = m.observed see h s ++ see t e u := by
  induction h generalizing s with
  | nil =>
    obtain rfl : s = t := Option.some.inj hr
    simp [observed, hs]
  | cons e' h ih =>
    obtain ⟨v, hv, hr⟩ := Option.bind_eq_some_iff.mp hr
    simp only [List.cons_append, observed, hv, ih hr, List.append_assoc]

/-- A record that grows at each event by what is seen of it is what is seen of the run. -/
theorem Path.records {β : Type*} {see : σ → ε → σ → List β} {ok : σ → ε → Prop} {s t : σ}
    {h : List ε} (hp : m.Path ok s h t) (record : σ → List β)
    (hstep : ∀ t e u, m.step e t = some u → record u = record t ++ see t e u) :
    record t = record s ++ m.observed see h s := by
  induction hp with
  | start => simp [observed]
  | next hp _ hs ih =>
    rw [hstep _ _ _ hs, ih, observed_concat (run_of_path hp) hs, List.append_assoc]

/-- The progress rule: from where some run always brings `rank` down until `G` is met, a
run leads to `G`. -/
theorem exists_run_of_rank {I G : List ε → σ → Prop} (rank : List ε → σ → Nat)
    (hprogress : ∀ h s, I h s → ¬G h s →
      ∃ k t, m.run k s = some t ∧ I (h ++ k) t ∧ rank (h ++ k) t < rank h s)
    {h : List ε} {s : σ} (hI : I h s) :
    ∃ k t, m.run k s = some t ∧ I (h ++ k) t ∧ G (h ++ k) t := by
  induction hn : rank h s using Nat.strongRecOn generalizing h s with
  | _ n ih =>
    subst hn
    by_cases hG : G h s
    · exact ⟨[], s, rfl, by simpa using hI, by simpa using hG⟩
    · obtain ⟨k, t, hk, hI', hlt⟩ := hprogress h s hI hG
      obtain ⟨l, u, hl, hI'', hG'⟩ := ih _ hlt hI' rfl
      rw [List.append_assoc] at hI'' hG'
      refine ⟨k ++ l, u, ?_, hI'', hG'⟩
      rw [run_append, hk]
      exact hl

/-- When an event keeps `I` exactly if it meets `ok`, then `I` holds all along a
history exactly if every event of it meets `ok` after the events before it. -/
theorem forall_prefix_iff_of_history {I : σ → Prop} {ok : List ε → σ → ε → Prop} {s t : σ} {h : List ε}
    (hr : m.run h s = some t) (h₀ : I s)
    (hstep : ∀ k e u v, k ++ [e] <+: h → m.run k s = some u →
      (∀ l w, l <+: k → m.run l s = some w → I w) → m.step e u = some v → (I v ↔ ok k u e)) :
    (∀ k u, k <+: h → m.run k s = some u → I u) ↔
      ∀ k e u, k ++ [e] <+: h → m.run k s = some u → ok k u e := by
  constructor
  · intro hall k e u hk hu
    obtain ⟨v, hv⟩ := run_prefix hk hr
    obtain ⟨u', hu', hs⟩ := run_concat.mp hv
    obtain rfl : u = u' := Option.some.inj (hu.symm.trans hu')
    have hk' := (List.prefix_append _ _).trans hk
    have hI := fun l w (hl : l <+: k) => hall l w (hl.trans hk')
    exact (hstep k e u v hk hu hI hs).mp (hall _ v hk hv)
  · intro hok
    have hall : ∀ k, k <+: h → ∀ l w, l <+: k → m.run l s = some w → I w := by
      intro k
      induction k using List.reverseRecOn with
      | nil =>
        intro _ l w hl hw
        rw [List.prefix_nil.mp hl] at hw
        exact Option.some.inj hw ▸ h₀
      | append_singleton k e ih =>
        intro hk l w hl hw
        have hI := ih ((List.prefix_append _ _).trans hk)
        rcases List.prefix_concat_iff.mp hl with rfl | hl
        · obtain ⟨u, hu, hs⟩ := run_concat.mp hw
          exact (hstep k e u w hk hu hI hs).mpr (hok k e u hk hu)
        · exact hI l w hl hw
    exact fun k u hk => hall k hk k u List.prefix_rfl

/-- The same where the last state is all that matters. -/
theorem forall_prefix_iff {I : σ → Prop} {ok : σ → ε → Prop} {s t : σ} {h : List ε}
    (hr : m.run h s = some t) (h₀ : I s)
    (hstep : ∀ k e u v, k ++ [e] <+: h → m.run k s = some u → I u → m.step e u = some v →
      (I v ↔ ok u e)) :
    (∀ k u, k <+: h → m.run k s = some u → I u) ↔
      ∀ k e u, k ++ [e] <+: h → m.run k s = some u → ok u e := by
  apply forall_prefix_iff_of_history hr h₀
  intro k e u v hk hu hall hs
  exact hstep k e u v hk hu (hall k u List.prefix_rfl hu) hs

theorem reaches_of_run {s t : σ} {h : List ε} (hr : m.run h s = some t) : m.Reaches s h t :=
  path_of_run hr fun _ _ => trivial

theorem not_since_nil {s : σ} {p : σ → ε → Prop} {q : ε → Prop} : ¬m.Since s p q [] := by
  rintro ⟨k, e, l, u, hsplit, -⟩
  simp at hsplit

theorem since_concat {s u : σ} {p : σ → ε → Prop} {q : ε → Prop} {h : List ε} {e : ε}
    (hr : m.run h s = some u) :
    m.Since s p q (h ++ [e]) ↔ p u e ∨ ¬q e ∧ m.Since s p q h := by
  constructor
  · rintro ⟨k, e', l, v, hsplit, hv, hp, hl⟩
    rcases List.eq_nil_or_concat' l with rfl | ⟨l, e'', rfl⟩
    · obtain ⟨rfl, he⟩ := List.append_inj' hsplit rfl
      obtain rfl : e = e' := List.singleton_inj.mp he
      obtain rfl : u = v := Option.some.inj (hr.symm.trans hv)
      exact Or.inl hp
    · rw [← List.cons_append, ← List.append_assoc] at hsplit
      obtain ⟨rfl, he⟩ := List.append_inj' hsplit rfl
      obtain rfl : e = e'' := List.singleton_inj.mp he
      refine Or.inr ⟨hl e (by simp), k, e', l, v, rfl, hv, hp, ?_⟩
      exact fun x hx => hl x (List.mem_append_left _ hx)
  · rintro (hp | ⟨hq, k, e', l, v, rfl, hv, hp, hl⟩)
    · exact ⟨h, e, [], u, rfl, hr, hp, by simp⟩
    · refine ⟨k, e', l ++ [e], v, by simp, hv, hp, ?_⟩
      intro x hx
      rcases List.mem_append.mp hx with hx | hx
      · exact hl x hx
      · exact List.mem_singleton.mp hx ▸ hq

end EventMachine
end Boostander.Library
