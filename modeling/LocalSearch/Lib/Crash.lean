import Mathlib.Data.List.Basic

/-!
# Programs that may be cut

A program over a durable state comes with the states a crash can leave, each
under the point where it strikes. Rules of pre- and postconditions say what holds
after a crash at a point that is allowed, after a result and after an error.
-/
namespace LocalSearch.Lib

set_option autoImplicit false

/-- All a program can come to from one state. -/
structure Outcome (σ κ ε α : Type) where
  crashes : List (κ × σ)
  final : σ
  result : Except ε α

/-- Programs over states `σ` with crash points `κ` and errors `ε`. -/
def Cut (σ κ ε α : Type) := σ → Outcome σ κ ε α

namespace Cut

variable {σ κ ε α β : Type}

def ret (a : α) : Cut σ κ ε α := fun s => ⟨[], s, .ok a⟩

def fail (e : ε) : Cut σ κ ε α := fun s => ⟨[], s, .error e⟩

/-- A look at the state. -/
def load (f : σ → Except ε α) : Cut σ κ ε α := fun s => ⟨[], s, f s⟩

/-- A change of the state, with the crash points before and inside it. -/
def step (points : σ → List (κ × σ)) (f : σ → σ) : Cut σ κ ε Unit := fun s => ⟨points s, f s, .ok ()⟩

def seq (m : Cut σ κ ε α) (f : α → Cut σ κ ε β) : Cut σ κ ε β := fun s =>
  match (m s).result with
  | .error e => ⟨(m s).crashes, (m s).final, .error e⟩
  | .ok a =>
      let next := f a (m s).final
      ⟨(m s).crashes ++ next.crashes, next.final, next.result⟩

instance : Monad (Cut σ κ ε) where
  pure := ret
  bind := seq

/-- The program for every element in turn. -/
def each (f : α → Cut σ κ ε Unit) : List α → Cut σ κ ε Unit
  | [] => ret ()
  | a :: rest => do
      f a
      each f rest

end Cut

/-- From a state in `P`, a crash at an allowed point leaves `C`, a result `a`
leaves `Q a` and an error `e` leaves `E e`. -/
structure Triple {σ κ ε α : Type} (allowed : κ → Prop) (P : σ → Prop) (m : Cut σ κ ε α)
    (C : σ → Prop) (Q : α → σ → Prop) (E : ε → σ → Prop) : Prop where
  crash : ∀ s, P s → ∀ x ∈ (m s).crashes, allowed x.1 → C x.2
  ok : ∀ s a, P s → (m s).result = .ok a → Q a (m s).final
  error : ∀ s e, P s → (m s).result = .error e → E e (m s).final

namespace Triple

variable {σ κ ε α β : Type} {allowed : κ → Prop} {P C : σ → Prop} {E : ε → σ → Prop}

theorem ret {a : α} {Q : α → σ → Prop} (h : ∀ s, P s → Q a s) :
    Triple allowed P (Cut.ret a) C Q E := by
  refine ⟨fun _ _ _ hx => (nomatch hx), fun s b hs hb => ?_, fun _ _ _ he => (nomatch he)⟩
  obtain rfl := Except.ok.inj hb
  exact h s hs

theorem fail {e : ε} {Q : α → σ → Prop} (h : ∀ s, P s → E e s) :
    Triple allowed P (Cut.fail e) C Q E := by
  refine ⟨fun _ _ _ hx => (nomatch hx), fun _ _ _ hb => (nomatch hb), fun s e' hs he => ?_⟩
  obtain rfl := Except.error.inj he
  exact h s hs

theorem load {f : σ → Except ε α} {Q : α → σ → Prop} (hok : ∀ s a, P s → f s = .ok a → Q a s)
    (herror : ∀ s e, P s → f s = .error e → E e s) : Triple allowed P (Cut.load f) C Q E :=
  ⟨fun _ _ _ hx => (nomatch hx), hok, herror⟩

/-- A look that cannot fail. -/
theorem peek {f : σ → α} : Triple allowed P (Cut.load fun s => .ok (f s)) C
    (fun a s => P s ∧ f s = a) E :=
  load (fun _ _ hs ha => ⟨hs, Except.ok.inj ha⟩) fun _ _ _ he => (nomatch he)

theorem step {points : σ → List (κ × σ)} {f : σ → σ} {Q : Unit → σ → Prop}
    (hpoints : ∀ s, P s → ∀ x ∈ points s, allowed x.1 → C x.2) (hdone : ∀ s, P s → Q () (f s)) :
    Triple allowed P (Cut.step points f) C Q E :=
  ⟨hpoints, fun s _ hs _ => hdone s hs, fun _ _ _ he => (nomatch he)⟩

/-- One program after the other. -/
theorem bind {m : Cut σ κ ε α} {f : α → Cut σ κ ε β} {R : α → σ → Prop} {Q : β → σ → Prop}
    (hm : Triple allowed P m C R E) (hf : ∀ a, Triple allowed (R a) (f a) C Q E) :
    Triple allowed P (m >>= f) C Q E := by
  have hseq : ∀ s, (m >>= f) s = Cut.seq m f s := fun _ => rfl
  refine ⟨fun s hs x hx hallowed => ?_, fun s b hs hb => ?_, fun s e hs he => ?_⟩
  · rw [hseq, Cut.seq] at hx
    cases hresult : (m s).result with
    | error e =>
      rw [hresult] at hx
      exact hm.crash s hs x hx hallowed
    | ok a =>
      rw [hresult] at hx
      rcases List.mem_append.1 hx with hx | hx
      · exact hm.crash s hs x hx hallowed
      · exact (hf a).crash _ (hm.ok s a hs hresult) x hx hallowed
  · rw [hseq, Cut.seq] at hb ⊢
    cases hresult : (m s).result with
    | error e => rw [hresult] at hb; cases hb
    | ok a =>
      rw [hresult] at hb
      exact (hf a).ok _ b (hm.ok s a hs hresult) hb
  · rw [hseq, Cut.seq] at he ⊢
    cases hresult : (m s).result with
    | error e' =>
      rw [hresult] at he
      obtain rfl := Except.error.inj he
      exact hm.error s _ hs hresult
    | ok a =>
      rw [hresult] at he
      exact (hf a).error _ e (hm.ok s a hs hresult) he

theorem mono {m : Cut σ κ ε α} {P' C' : σ → Prop} {Q Q' : α → σ → Prop} {E' : ε → σ → Prop}
    (h : Triple allowed P m C Q E) (hP : ∀ s, P' s → P s) (hC : ∀ s, C s → C' s)
    (hQ : ∀ a s, Q a s → Q' a s) (hE : ∀ e s, E e s → E' e s) : Triple allowed P' m C' Q' E' :=
  ⟨fun s hs x hx hallowed => hC _ (h.crash s (hP s hs) x hx hallowed),
    fun s a hs ha => hQ a _ (h.ok s a (hP s hs) ha),
    fun s e hs he => hE e _ (h.error s e (hP s hs) he)⟩

theorem pre {m : Cut σ κ ε α} {P' : σ → Prop} {Q : α → σ → Prop} (h : Triple allowed P m C Q E)
    (hP : ∀ s, P' s → P s) : Triple allowed P' m C Q E :=
  h.mono hP (fun _ hs => hs) (fun _ _ hs => hs) fun _ _ hs => hs

theorem left {m : Cut σ κ ε α} {C' : σ → Prop} {Q : α → σ → Prop} (h : Triple allowed P m C Q E)
    (hC : ∀ s, C s → C' s) : Triple allowed P m C' Q E :=
  h.mono (fun _ hs => hs) hC (fun _ _ hs => hs) fun _ _ hs => hs

theorem post {m : Cut σ κ ε α} {Q Q' : α → σ → Prop} (h : Triple allowed P m C Q E)
    (hQ : ∀ a s, Q a s → Q' a s) : Triple allowed P m C Q' E :=
  h.mono (fun _ hs => hs) (fun _ hs => hs) hQ fun _ _ hs => hs

/-- What holds of every state that meets the precondition may be used. -/
theorem of_pre {m : Cut σ κ ε α} {Q : α → σ → Prop}
    (h : ∀ s, P s → Triple allowed (· = s) m C Q E) : Triple allowed P m C Q E :=
  ⟨fun s hs => (h s hs).crash s rfl, fun s a hs => (h s hs).ok s a rfl,
    fun s e hs => (h s hs).error s e rfl⟩

/-- The result is the one the program has from that state. -/
theorem exactly {m : Cut σ κ ε α} {Q : α → σ → Prop} {s₀ : σ} (h : Triple allowed (· = s₀) m C Q E) :
    Triple allowed (· = s₀) m C (fun a s => Q a s ∧ (m s₀).result = .ok a) E := by
  refine ⟨h.crash, fun s a hs ha => ⟨h.ok s a hs ha, ?_⟩, h.error⟩
  subst hs
  exact ha

/-- What results and errors both leave, the program leaves. -/
theorem final {m : Cut σ κ ε α} {Q : α → σ → Prop} {R : σ → Prop} {s : σ}
    (h : Triple allowed P m C Q E) (hs : P s) (hQ : ∀ a s, Q a s → R s) (hE : ∀ e s, E e s → R s) :
    R (m s).final := by
  cases hresult : (m s).result with
  | ok a => exact hQ a _ (h.ok s a hs hresult)
  | error e => exact hE e _ (h.error s e hs hresult)

/-- An assertion about the elements that are left. -/
theorem each_rest {J : List α → σ → Prop} {f : α → Cut σ κ ε Unit} {l : List α}
    (h : ∀ a rest, a :: rest <:+ l → Triple allowed (J (a :: rest)) (f a) C (fun _ => J rest) E) :
    Triple allowed (J l) (Cut.each f l) C (fun _ => J []) E := by
  induction l with
  | nil => exact Triple.ret fun _ hs => hs
  | cons a l ih =>
    exact (h a l (List.suffix_refl _)).bind fun _ =>
      ih fun b rest hrest => h b rest (hrest.trans (List.suffix_cons a l))

/-- Keep an invariant through every element. -/
theorem each {I : σ → Prop} {f : α → Cut σ κ ε Unit} {l : List α}
    (h : ∀ a ∈ l, Triple allowed I (f a) C (fun _ => I) E) :
    Triple allowed I (Cut.each f l) C (fun _ => I) E := by
  induction l with
  | nil => exact Triple.ret fun _ hs => hs
  | cons a l ih =>
    exact (h a List.mem_cons_self).bind fun _ => ih fun b hb => h b (List.mem_cons_of_mem _ hb)

end Triple

end LocalSearch.Lib
