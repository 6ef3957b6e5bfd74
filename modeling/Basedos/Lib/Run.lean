import Mathlib.Order.Nat

/-!
# Runs of a machine that answers

A machine with states `σ` is given by its step function: an operation takes it to
a new state and gives a reply. A run is a list of operations done one after the
other (`run`), and what is claimed of a machine is claimed of its runs. The rules:

* `run_inv` — an invariant that every step keeps holds at the end of every run;
  the steps may be required to meet a condition (`Along`).
* `run_sim` — **simulation**: two machines whose steps, from related states, give
  the same reply and related states again, answer every run alike.
* `always_iff_along` — where each step decides whether something goes on holding, it holds all
  along a run exactly when every step meets the condition.
* `along_of_run_eq` — a count that no step lowers, and that is the same at the end of a
  run, was the same all along.
* `run_reaches` — **progress**: what a tick brings one nearer, and other steps push away no further than a
  count they raise, is reached in a run with enough ticks.
* `foldlM_inv`, `foldlM_replicate` — the invariant rules for steps that may fail, where the
  invariant says that they do not; the second counts the steps.
* `Leads` — what steps that may fail lead to from every state that meets a condition, one list after the other.

A machine may be made to remember what it was asked and what it answered without
a change to what it does (`remember`).
-/

namespace Basedos.Lib

universe u v w x

variable {σ : Type u} {τ : Type v} {α : Type w} {β : Type x}

/-- The replies to a list of operations, and the state after the last. -/
def run (step : σ → α → β × σ) : σ → List α → List β × σ
  | s, [] => ([], s)
  | s, a :: as => ((step s a).1 :: (run step (step s a).2 as).1, (run step (step s a).2 as).2)

@[simp] theorem run_nil (step : σ → α → β × σ) (s : σ) : run step s [] = ([], s) := rfl

@[simp] theorem run_cons (step : σ → α → β × σ) (s : σ) (a : α) (as : List α) :
    run step s (a :: as) =
      ((step s a).1 :: (run step (step s a).2 as).1, (run step (step s a).2 as).2) := rfl

/-- Every step of the run meets `P`, in the state it is taken in. -/
def Along (step : σ → α → β × σ) (P : σ → α → Prop) : σ → List α → Prop
  | _, [] => True
  | s, a :: as => P s a ∧ Along step P (step s a).2 as

instance Along.decidable (step : σ → α → β × σ) (P : σ → α → Prop) [∀ s a, Decidable (P s a)] :
    ∀ (s : σ) (as : List α), Decidable (Along step P s as)
  | _, [] => isTrue trivial
  | s, a :: as => @instDecidableAnd _ _ _ (Along.decidable step P (step s a).2 as)

/-- Two conditions met by every step. -/
theorem Along.and {step : σ → α → β × σ} {P Q : σ → α → Prop} {s : σ} {as : List α} (hP : Along step P s as)
    (hQ : Along step Q s as) : Along step (fun s a => P s a ∧ Q s a) s as := by
  induction as generalizing s with
  | nil => trivial
  | cons a as ih => exact ⟨⟨hP.1, hQ.1⟩, ih hP.2 hQ.2⟩

/-- **The invariant rule.** -/
theorem run_inv {step : σ → α → β × σ} {P : σ → α → Prop} {I : σ → Prop}
    (hI : ∀ s a, I s → P s a → I (step s a).2) {s : σ} (hs : I s) {as : List α}
    (hP : Along step P s as) : I (run step s as).2 := by
  induction as generalizing s with
  | nil => exact hs
  | cons a as ih => exact ih (hI s a hs hP.1) hP.2

/-- The invariant rule for steps that need no condition. -/
theorem run_inv' {step : σ → α → β × σ} {I : σ → Prop} (hI : ∀ s a, I s → I (step s a).2) {s : σ}
    (hs : I s) (as : List α) : I (run step s as).2 := by
  induction as generalizing s with
  | nil => exact hs
  | cons a as ih => exact ih (hI s a hs)

/-- **The simulation rule.** `P` and `Q` are the conditions on the two machines'
steps; related states answer alike and stay related. -/
theorem run_sim {step : σ → α → β × σ} {step' : τ → α → β × τ} {P : σ → α → Prop} {Q : τ → α → Prop}
    {R : σ → τ → Prop}
    (hR : ∀ s t a, R s t → P s a → Q t a → (step s a).1 = (step' t a).1 ∧ R (step s a).2 (step' t a).2)
    {s : σ} {t : τ} (hst : R s t) {as : List α} (hP : Along step P s as) (hQ : Along step' Q t as) :
    (run step s as).1 = (run step' t as).1 ∧ R (run step s as).2 (run step' t as).2 := by
  induction as generalizing s t with
  | nil => exact ⟨rfl, hst⟩
  | cons a as ih =>
    obtain ⟨hb, hst'⟩ := hR s t a hst hP.1 hQ.1
    obtain ⟨hbs, hend⟩ := ih hst' hP.2 hQ.2
    exact ⟨by simp only [run_cons, hb, hbs], hend⟩

/-- The invariant rule, all along the run. -/
theorem run_inv_take {step : σ → α → β × σ} {P : σ → α → Prop} {I : σ → Prop}
    (hI : ∀ s a, I s → P s a → I (step s a).2) {s : σ} (hs : I s) {as : List α}
    (hP : Along step P s as) (n : ℕ) : I (run step s (as.take n)).2 := by
  induction as generalizing s n with
  | nil => rwa [List.take_nil]
  | cons a as ih =>
    cases n with
    | zero => exact hs
    | succ n => exact ih (hI s a hs hP.1) hP.2 n

/-- Two conditions on steps that agree in the states reached by steps that meet them. -/
theorem along_congr_of {step : σ → α → β × σ} {J : σ → Prop} {P Q : σ → α → Prop}
    (hJ : ∀ s a, J s → Q s a → J (step s a).2) (h : ∀ s a, J s → (P s a ↔ Q s a)) {s : σ} (hs : J s)
    (as : List α) : Along step P s as ↔ Along step Q s as := by
  induction as generalizing s with
  | nil => exact Iff.rfl
  | cons a as ih =>
    constructor
    · rintro ⟨hP, hrest⟩
      have hQ : Q s a := (h s a hs).mp hP
      exact ⟨hQ, (ih (hJ s a hs hQ)).mp hrest⟩
    · rintro ⟨hQ, hrest⟩
      exact ⟨(h s a hs).mpr hQ, (ih (hJ s a hs hQ)).mpr hrest⟩

/-- Two conditions on steps that agree in the states reached. -/
theorem along_congr {step : σ → α → β × σ} {J : σ → Prop} {P Q : σ → α → Prop}
    (hJ : ∀ s a, J s → J (step s a).2) (h : ∀ s a, J s → (P s a ↔ Q s a)) {s : σ} (hs : J s) (as : List α) :
    Along step P s as ↔ Along step Q s as :=
  along_congr_of (fun s a hs _ => hJ s a hs) h hs as

/-- Every step meets what is true of every step. -/
theorem along_of_forall {step : σ → α → β × σ} {P : σ → α → Prop} (h : ∀ s a, P s a) (s : σ) (as : List α) :
    Along step P s as := by
  induction as generalizing s with
  | nil => trivial
  | cons a as ih => exact ⟨h s a, ih (step s a).2⟩

/-- **When something holds all along**: of the states that `J` holds of, in which the step decides
whether `I` goes on holding, as long as the steps meet `Q`. -/
theorem always_iff_along_of {step : σ → α → β × σ} {J I : σ → Prop} {P Q : σ → α → Prop}
    (hJ : ∀ s a, J s → Q s a → J (step s a).2)
    (hI : ∀ s a, J s → Q s a → I s → (I (step s a).2 ↔ P s a)) {s : σ} (hs : J s) (h : I s) {as : List α}
    (hQ : Along step Q s as) : (∀ n, I (run step s (as.take n)).2) ↔ Along step P s as := by
  induction as generalizing s with
  | nil => exact iff_of_true (fun n => by rw [List.take_nil]; exact h) trivial
  | cons a as ih =>
    have hs' : J (step s a).2 := hJ s a hs hQ.1
    constructor
    · intro hall
      have hstep : I (step s a).2 := hall 1
      exact ⟨(hI s a hs hQ.1 h).mp hstep, (ih hs' hstep hQ.2).mp fun n => hall (n + 1)⟩
    · rintro ⟨hP, hrest⟩ n
      have hstep : I (step s a).2 := (hI s a hs hQ.1 h).mpr hP
      cases n with
      | zero => exact h
      | succ n => exact (ih hs' hstep hQ.2).mpr hrest n

/-- The same for steps that need no condition. -/
theorem always_iff_along {step : σ → α → β × σ} {J I : σ → Prop} {P : σ → α → Prop}
    (hJ : ∀ s a, J s → J (step s a).2) (hI : ∀ s a, J s → I s → (I (step s a).2 ↔ P s a)) {s : σ}
    (hs : J s) (h : I s) (as : List α) : (∀ n, I (run step s (as.take n)).2) ↔ Along step P s as :=
  always_iff_along_of (fun s a hs _ => hJ s a hs) (fun s a hs _ h => hI s a hs h) hs h
    (along_of_forall (fun _ _ => trivial) s as)

/-- A count that no step lowers is not lowered by a run. -/
theorem le_run {step : σ → α → β × σ} {f : σ → ℕ} (hf : ∀ s a, f s ≤ f (step s a).2) (s : σ)
    (as : List α) : f s ≤ f (run step s as).2 :=
  run_inv' (I := fun t => f s ≤ f t) (fun t a h => h.trans (hf t a)) le_rfl as

/-- When it is the same at the end of the run, no step has raised it. -/
theorem along_of_run_eq {step : σ → α → β × σ} {f : σ → ℕ} (hf : ∀ s a, f s ≤ f (step s a).2) {s : σ}
    {as : List α} (h : f (run step s as).2 = f s) : Along step (fun s a => f (step s a).2 = f s) s as := by
  induction as generalizing s with
  | nil => trivial
  | cons a as ih =>
    have h₁ := hf s a
    have h₂ := le_run hf (step s a).2 as
    simp only [run_cons] at h
    exact ⟨by omega, ih (by omega)⟩

/-- **The progress rule.** `W k` says that `G` is at most `k` ticks away. A tick brings it one nearer, unless
it is there; another step pushes it away by what it adds to the count `f`. -/
theorem run_reaches {step : σ → α → β × σ} {t : α → Bool} {f : σ → ℕ} {W : ℕ → σ → Prop} {G : σ → Prop}
    (hzero : ∀ s, W 0 s → G s)
    (htick : ∀ k s a, t a = true → W (k + 1) s → ¬ G s → W k (step s a).2 ∧ f (step s a).2 = f s)
    (hother : ∀ k s a, t a = false → W k s → ∃ d, W (k + d) (step s a).2 ∧ f (step s a).2 = f s + d)
    {k : ℕ} {s : σ} {as : List α} (h : W k s) (hle : k + f (run step s as).2 ≤ as.countP t + f s) :
    ∃ n, G (run step s (as.take n)).2 := by
  induction as generalizing k s with
  | nil =>
    have hk : k = 0 := by
      simp only [run_nil, List.countP_nil] at hle
      omega
    exact ⟨0, hzero s (hk ▸ h)⟩
  | cons a as ih =>
    by_cases hG : G s
    · exact ⟨0, hG⟩
    have hnext : ∃ k', W k' (step s a).2 ∧ k' + f (run step s (a :: as)).2 ≤ as.countP t + f (step s a).2 := by
      cases ha : t a with
      | true =>
        rw [List.countP_cons_of_pos ha] at hle
        cases k with
        | zero => exact absurd (hzero s h) hG
        | succ k =>
          obtain ⟨hW, hf⟩ := htick k s a ha h hG
          exact ⟨k, hW, by omega⟩
      | false =>
        rw [List.countP_cons_of_neg (by simp [ha])] at hle
        obtain ⟨d, hW, hf⟩ := hother k s a ha h
        exact ⟨k + d, hW, by omega⟩
    obtain ⟨k', hW, hle'⟩ := hnext
    obtain ⟨n, hn⟩ := ih hW hle'
    exact ⟨n + 1, hn⟩

/-- The machine that also keeps a record, updated from each operation and its reply. -/
def remember {γ : Type*} (note : γ → α → β → γ) (step : σ → α → β × σ) (gs : γ × σ) (a : α) :
    β × (γ × σ) :=
  ((step gs.2 a).1, (note gs.1 a (step gs.2 a).1, (step gs.2 a).2))

/-- Keeping a record changes nothing else. -/
theorem run_remember {γ : Type*} (note : γ → α → β → γ) (step : σ → α → β × σ) (g : γ) (s : σ)
    (as : List α) :
    (run (remember note step) (g, s) as).1 = (run step s as).1 ∧
      (run (remember note step) (g, s) as).2.2 = (run step s as).2 := by
  induction as generalizing g s with
  | nil => exact ⟨rfl, rfl⟩
  | cons a as ih =>
    obtain ⟨h₁, h₂⟩ := ih (note g a (step s a).1) (step s a).2
    exact ⟨by simp only [run_cons, remember] at h₁ ⊢; rw [h₁], h₂⟩

/-! ### Steps that may fail -/

/-- **The invariant rule** for steps that may fail: where it holds they do not. -/
theorem foldlM_inv {step : σ → α → Option σ} {I : σ → Prop} {as : List α}
    (hI : ∀ s, ∀ a ∈ as, I s → ∃ s', step s a = some s' ∧ I s') {s : σ} (hs : I s) :
    ∃ s', as.foldlM step s = some s' ∧ I s' := by
  induction as generalizing s with
  | nil => exact ⟨s, rfl, hs⟩
  | cons a as ih =>
    obtain ⟨s₁, hs₁, h₁⟩ := hI s a List.mem_cons_self hs
    rw [List.foldlM_cons, hs₁]
    exact ih (fun t b hb => hI t b (List.mem_cons_of_mem a hb)) h₁

/-- One operation a number of times, up to `n`, with an invariant that counts them. -/
theorem foldlM_replicate {step : σ → α → Option σ} {a : α} {I : ℕ → σ → Prop} {n : ℕ}
    (hI : ∀ m s, m < n → I m s → ∃ s', step s a = some s' ∧ I (m + 1) s') {s : σ} (hs : I 0 s) {m : ℕ}
    (hm : m ≤ n) : ∃ s', (List.replicate m a).foldlM step s = some s' ∧ I m s' := by
  induction m with
  | zero => exact ⟨s, rfl, hs⟩
  | succ m ih =>
    obtain ⟨s₁, hs₁, h₁⟩ := ih (Nat.le_of_succ_le hm)
    obtain ⟨s', hs', h'⟩ := hI m s₁ hm h₁
    refine ⟨s', ?_, h'⟩
    rw [List.replicate_succ', List.foldlM_append, hs₁]
    simpa using hs'

/-- From every state that meets `P`, all the steps can be taken and lead to a state that meets `Q`. -/
def Leads (step : σ → α → Option σ) (P Q : σ → Prop) (as : List α) : Prop :=
  ∀ s, P s → ∃ s', as.foldlM step s = some s' ∧ Q s'

section

variable {step : σ → α → Option σ} {P Q R : σ → Prop} {a : α} {as as' : List α}

theorem leads_nil (h : ∀ s, P s → Q s) : Leads step P Q [] := fun s hs => ⟨s, rfl, h s hs⟩

theorem leads_cons (h : ∀ s, P s → ∃ s', step s a = some s' ∧ Q s') (h' : Leads step Q R as) :
    Leads step P R (a :: as) := by
  intro s hs
  obtain ⟨s₁, hs₁, hq⟩ := h s hs
  rw [List.foldlM_cons, hs₁]
  exact h' s₁ hq

/-- **One list after the other.** -/
theorem Leads.append (h : Leads step P Q as) (h' : Leads step Q R as') : Leads step P R (as ++ as') := by
  intro s hs
  obtain ⟨s₁, hs₁, hq⟩ := h s hs
  rw [List.foldlM_append, hs₁]
  exact h' s₁ hq

theorem Leads.mono {P' Q' : σ → Prop} (h : Leads step P Q as) (hP : ∀ s, P' s → P s) (hQ : ∀ s, Q s → Q' s) :
    Leads step P' Q' as := by
  intro s hs
  obtain ⟨s', hs', hq⟩ := h s (hP s hs)
  exact ⟨s', hs', hQ s' hq⟩

end

/-- A step that gives a result for each operation. -/
theorem mapM_some {f : α → Option β} {g : α → β} {as : List α} (h : ∀ a ∈ as, f a = some (g a)) :
    as.mapM f = some (as.map g) := by
  induction as with
  | nil => rfl
  | cons a as ih =>
    rw [List.mapM_cons, h a List.mem_cons_self, ih fun x hx => h x (List.mem_cons_of_mem a hx)]
    rfl

end Basedos.Lib
