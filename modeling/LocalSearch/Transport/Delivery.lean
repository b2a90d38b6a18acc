import LocalSearch.Transport.Exchange
import Mathlib.Data.List.Nodup

/-!
# Answers and calls

What the invariant of the pipe says to its users: a client that returns a frame
has the reply to its own request, the handler is called at most once for a handle
and never for a stranger, an acknowledged exchange has been received, and a client
that leaves before it is accepted blocks the pipe.
-/
namespace LocalSearch.Transport

set_option autoImplicit false

open Lib

variable {σ ε ι : Type} {E : Endpoint σ ε ι} {service : σ} {s : Net σ ι}

theorem Holds.call_unique (h : Holds E service s) {a b : Call ι} (ha : a ∈ s.calls)
    (hb : b ∈ s.calls) (hab : a.client = b.client) : a = b :=
  List.inj_on_of_nodup_map h.once ha hb hab

/-- A call in the middle was answered from the state its predecessors left. -/
theorem Serves.split {earlier later : List (Call ι)} {call : Call ι} {last : σ}
    (h : Serves E service (earlier ++ call :: later) last) :
    ∃ before around after, Serves E service earlier before ∧
      E.handler around before call.frame = (after, call.reply) := by
  generalize hcalls : earlier ++ call :: later = calls at h
  induction h generalizing later with
  | nil => simp at hcalls
  | @snoc calls before after call' around hserves hhandler ih =>
    rcases List.eq_nil_or_concat later with rfl | ⟨front, final, rfl⟩
    · obtain ⟨rfl, hlast⟩ := List.append_inj' hcalls rfl
      obtain rfl := List.singleton_inj.mp hlast
      exact ⟨before, around, after, hserves, hhandler⟩
    · rw [List.concat_eq_append, ← List.cons_append, ← List.append_assoc] at hcalls
      obtain ⟨hfront, -⟩ := List.append_inj' hcalls rfl
      exact ih hfront

/-- One client whose empty frame is echoed. -/
def echoing : Endpoint Unit Unit Unit where
  program := fun _ => .roundTrip "\\\\.\\pipe\\LocalSearch\\Agent\\v1\\S-1-5-5-0-1" [0, 0, 0, 0]
  sid := fun _ => "S-1-5-5-0-1"
  logonSid := "S-1-5-5-0-1"
  handler := fun _ service frame => (service, .ok frame)

theorem echoing_linked : ∃ s, Reachable echoing () s ∧ s.link = some ⟨(), false, [], []⟩ ∧
    s.clients () = .writing [0, 0, 0, 0] ∧ s.server = .listening := by
  have hstart := Reachable.initial.move (@Move.start _ _ _ _ echoing (Net.initial ()) () _ _ rfl rfl
    (by decide +kernel) (by decide +kernel))
  exact ⟨_, hstart.move (.connect rfl rfl rfl (by simp [Net.goto, Net.initial])), rfl, rfl, rfl⟩

theorem echoing_served : ∃ s, Reachable echoing () s ∧ s.served = [()] ∧
    s.clients () = .returned (.ok [0, 0, 0, 0]) ∧ s.calls = [⟨(), [0, 0, 0, 0], .ok [0, 0, 0, 0]⟩] := by
  have hstart := Reachable.initial.move (@Move.start _ _ _ _ echoing (Net.initial ()) () _ _ rfl rfl
    (by decide +kernel) (by decide +kernel))
  have hconnect := hstart.move
    (@Move.connect _ _ _ _ _ _ () _ _ rfl rfl rfl (by simp [Net.goto, Net.initial]))
  have haccept := hconnect.move (.accept rfl rfl rfl)
  have hwrite := haccept.move (@Move.clientWrite _ _ _ _ _ _ _ _ 4 rfl rfl (by decide))
  have hread := hwrite.move
    (@Move.serverRead _ _ _ _ _ _ _ _ 4 4 rfl rfl rfl (by decide) (by decide) (by decide))
  have hhandle := hread.move (@Move.handle _ _ _ _ _ _ _ _ _ () _ rfl rfl rfl rfl (by decide))
  have hreply := hhandle.move (@Move.serverWrite _ _ _ _ _ _ _ _ 4 rfl rfl rfl (by decide))
  have htake := hreply.move
    (@Move.clientRead _ _ _ _ _ _ _ _ 4 4 rfl rfl rfl (by decide) (by decide) (by decide))
  have hack := htake.move (.acknowledge rfl rfl)
  exact ⟨_, hack.move (.readAck rfl rfl rfl), rfl, rfl, rfl⟩

section Safety

variable [DecidableEq ι]

/-- A client that returns a frame has the reply of the handler to the request it
sent, and the handler was called for it this once. -/
theorem returned_frame_is_reply (h : Reachable E service s) {c : ι} {frame : List UInt8}
    (hc : s.clients c = .returned (.ok frame)) :
    ∃ pipeName encoded, E.program c = .roundTrip pipeName encoded ∧
      ⟨c, encoded, .ok frame⟩ ∈ s.calls ∧
      ∀ call ∈ s.calls, call.client = c → call = ⟨c, encoded, .ok frame⟩ := by
  have hholds := h.holds
  obtain ⟨pipeName, encoded, hprogram, hcall⟩ := hholds.results c frame (Or.inr hc)
  exact ⟨pipeName, encoded, hprogram, hcall, fun call hmem hclient =>
    hholds.call_unique hmem hcall hclient⟩

theorem returned_frame_is_reply_echoing : ∃ s, Reachable echoing () s ∧
    s.clients () = .returned (.ok [0, 0, 0, 0]) ∧
    ∃ pipeName encoded, echoing.program () = .roundTrip pipeName encoded ∧
      ⟨(), encoded, .ok [0, 0, 0, 0]⟩ ∈ s.calls ∧
      ∀ call ∈ s.calls, call.client = () → call = ⟨(), encoded, .ok [0, 0, 0, 0]⟩ := by
  obtain ⟨s, hreachable, -, hreturned, -⟩ := echoing_served
  exact ⟨s, hreachable, hreturned, returned_frame_is_reply hreachable hreturned⟩

/-- The handler sees each handle at most once, only with the authorized logon, and
only whole frames: of a call of the library its request, of any other program
what it began to send. Its calls are one sequential run of the service. -/
theorem calls_admissible (h : Reachable E service s) :
    (∀ call ∈ s.calls, E.sid call.client = E.logonSid ∧
      validateEncodedFrame call.frame = .ok () ∧
      Asked (E.program call.client) (s.clients call.client) call.frame) ∧
      (s.calls.map fun call => call.client).Nodup ∧ Serves E service s.calls s.service := by
  have hholds := h.holds
  refine ⟨fun call hcall => ?_, hholds.once, hholds.sequential⟩
  obtain ⟨hsid, hframed, hasked⟩ := hholds.asked call hcall
  exact ⟨hsid, validateEncodedFrame_eq_ok.mpr hframed, hasked⟩

theorem calls_admissible_echoing : ∃ s, Reachable echoing () s ∧ s.calls ≠ [] ∧
    (∀ call ∈ s.calls, echoing.sid call.client = echoing.logonSid ∧
      validateEncodedFrame call.frame = .ok () ∧
      Asked (echoing.program call.client) (s.clients call.client) call.frame) ∧
      (s.calls.map fun call => call.client).Nodup ∧ Serves echoing () s.calls s.service := by
  obtain ⟨s, hreachable, -, -, hcalls⟩ := echoing_served
  exact ⟨s, hreachable, by rw [hcalls]; simp, calls_admissible hreachable⟩

/-- When the server ends an exchange well, its client has returned the reply. -/
theorem served_has_returned (h : Reachable E service s) {c : ι} {pipeName : String}
    {encoded : List UInt8} (hc : c ∈ s.served) (hprogram : E.program c = .roundTrip pipeName encoded) :
    ∃ frame, s.clients c = .returned (.ok frame) ∧ ⟨c, encoded, .ok frame⟩ ∈ s.calls := by
  have hholds := h.holds
  obtain ⟨frame, hframe⟩ := hholds.served c hc pipeName encoded hprogram
  obtain ⟨pipeName', encoded', hsame, hcall⟩ := hholds.results c frame (Or.inr hframe)
  rw [hprogram] at hsame
  cases hsame
  exact ⟨frame, hframe, hcall⟩

theorem served_has_returned_echoing : ∃ s, Reachable echoing () s ∧
    ∃ frame, s.clients () = .returned (.ok frame) ∧ ⟨(), [0, 0, 0, 0], .ok frame⟩ ∈ s.calls := by
  obtain ⟨s, hreachable, hserved, -, -⟩ := echoing_served
  exact ⟨s, hreachable, served_has_returned hreachable (by rw [hserved]; simp) rfl⟩

end Safety

section Abandoned

variable {t u : Net σ ι}

/-- A client without an answer. -/
def ClientPhase.Waits : ClientPhase → Prop
  | .idle | .connecting | .returned (.error _) => True
  | _ => False

/-- Since `s` the server listens at an instance that its client has left, or it has
stopped. While the server listens, only a client that still holds its handle is
accepted, and the instance is not disconnected before an exchange has begun. -/
structure Abandoned (s t : Net σ ι) : Prop where
  shut : (t.server = .listening ∧ ∃ l, t.link = some l ∧ l.closed = true) ∨
    (t.server = .stopped ∧ t.link = none)
  calls : t.calls = s.calls
  served : t.served = s.served
  waits : ∀ c, (s.clients c).Waits → (t.clients c).Waits

/-- Nobody can connect, and the server does nothing but listen. -/
theorem Abandoned.not_open (h : Abandoned s t) (hlink : t.link = none) : t.server = .stopped := by
  rcases h.shut with ⟨-, l, hl, -⟩ | ⟨hserver, -⟩
  · rw [hlink] at hl
    cases hl
  · exact hserver

theorem Abandoned.listening (h : Abandoned s t) {l : Link ι} (hl : t.link = some l) :
    t.server = .listening ∧ l.closed = true := by
  rcases h.shut with ⟨hserver, l', hl', hshut⟩ | ⟨-, hnone⟩
  · obtain rfl := Option.some.inj (hl.symm.trans hl')
    exact ⟨hserver, hshut⟩
  · rw [hl] at hnone
    cases hnone

theorem Abandoned.stopped (h : Abandoned s t) {error : WindowsPipeError}
    (hends : afterServing (.error error) = .stopped) : Abandoned s (t.finish (.error error)) :=
  ⟨Or.inr ⟨hends, rfl⟩, h.calls, h.served, h.waits⟩

variable [DecidableEq ι]

/-- The client whose turn it is does not wait, or goes on waiting. -/
theorem Abandoned.turn (h : Abandoned s t) {d : ι} {phase : ClientPhase}
    (hphase : (t.clients d).Waits → phase.Waits) (c : ι) (hc : (s.clients c).Waits) :
    (Function.update t.clients d phase c).Waits := by
  by_cases hcd : c = d
  · rw [hcd, Function.update_self]
    exact hphase (hcd ▸ h.waits c hc)
  · rw [Function.update_of_ne hcd]
    exact h.waits c hc

/-- A move at the left instance leaves it as it is. -/
theorem Abandoned.piece (h : Abandoned s t) {l l' : Link ι} (hl : t.link = some l)
    (hclosed : l.closed = true → l'.closed = true) {d : ι} {phase : ClientPhase}
    (hphase : ¬ (t.clients d).Waits) : Abandoned s { t.goto d phase with link := some l' } where
  shut := by
    rcases h.shut with ⟨hserver, l'', hl'', hshut⟩ | ⟨-, hnone⟩
    · obtain rfl := Option.some.inj (hl.symm.trans hl'')
      exact Or.inl ⟨hserver, l', rfl, hclosed hshut⟩
    · rw [hl] at hnone
      cases hnone
  calls := h.calls
  served := h.served
  waits := h.turn fun hwaits => absurd hwaits hphase

/-- A client drops its handle. -/
theorem Abandoned.leave (h : Abandoned s t) {d : ι} {phase : ClientPhase}
    (hphase : ¬ (t.clients d).Waits) : Abandoned s (t.leave d phase) where
  shut := by
    rcases h.shut with ⟨hserver, l, hl, hshut⟩ | ⟨hserver, hnone⟩
    · refine Or.inl ⟨hserver, l.drop d, ?_, ?_⟩
      · show t.link.map (·.drop d) = some (l.drop d)
        rw [hl]
        rfl
      · unfold Link.drop
        split
        · rfl
        · exact hshut
    · refine Or.inr ⟨hserver, ?_⟩
      show t.link.map (·.drop d) = none
      rw [hnone]
      rfl
  calls := h.calls
  served := h.served
  waits := h.turn fun hwaits => absurd hwaits hphase

theorem Abandoned.goto (h : Abandoned s t) {d : ι} {phase : ClientPhase} (hphase : phase.Waits) :
    Abandoned s (t.goto d phase) :=
  ⟨h.shut, h.calls, h.served, h.turn fun _ => hphase⟩

theorem Abandoned.move (h : Abandoned s t) (hmove : Move E t u) : Abandoned s u := by
  have hbusy : ∀ {l : Link ι} {server : ServerPhase}, t.link = some l → t.server = server →
      server ≠ .listening → Abandoned s u := by
    intro l server hl hserver hne
    exact absurd (hserver.symm.trans (h.listening hl).1) hne
  cases hmove with
  | start hphase hprogram hname hframe => exact h.goto trivial
  | connect hphase hprogram hlink hserver => exact absurd (h.not_open hlink) hserver
  | foreignConnect hphase hprogram hlink hserver => exact absurd (h.not_open hlink) hserver
  | clientWrite hlink hphase hcount => exact h.piece hlink (by simp) (by rw [hphase]; exact id)
  | clientRead hlink hphase hwants hwanted hcount hsize =>
    exact h.piece hlink (by simp) (by rw [hphase]; exact id)
  | acknowledge hlink hphase => exact h.piece hlink (by simp) (by rw [hphase]; exact id)
  | foreignWrite hlink hphase => exact h.piece hlink (by simp) (by rw [hphase]; exact id)
  | foreignRead hlink hphase =>
    obtain ⟨hserver, hshut⟩ := h.listening hlink
    exact ⟨Or.inl ⟨hserver, _, rfl, hshut⟩, h.calls, h.served, h.waits⟩
  | foreignLeave hphase => exact h.leave (by rw [hphase]; exact id)
  | accept hserver hlink hopen =>
    rw [(h.listening hlink).2] at hopen
    cases hopen
  | serverRead hserver hlink hwants hwanted hcount hsize => exact hbusy hlink hserver (by simp)
  | handle hserver hlink hsid hhandler hreply => exact hbusy hlink hserver (by simp)
  | serverWrite hserver hlink hopen hcount => exact hbusy hlink hserver (by simp)
  | readAck hserver hlink hack => exact hbusy hlink hserver (by simp)

theorem Abandoned.failure (h : Abandoned s t) (hfailure : Failure E t u) : Abandoned s u := by
  have hbusy : ∀ {l : Link ι}, t.link = some l → t.server ≠ .listening → Abandoned s u := by
    intro l hl hne
    exact absurd (h.listening hl).1 hne
  cases hfailure with
  | refuseName hphase hprogram hname => exact h.goto trivial
  | refuseFrame hphase hprogram hname hframe => exact h.goto trivial
  | notConnected hphase herror => exact h.goto trivial
  | stopWriting hphase herror => exact h.leave (by rw [hphase]; exact id)
  | stopReading hphase herror => exact h.leave (by rw [hphase]; exact id)
  | stopAcking hphase herror => exact h.leave (by rw [hphase]; exact id)
  | clientTooLarge hlink hphase hwants hwanted hcount hsize =>
    exact h.leave (by rw [hphase]; exact id)
  | keepListening hserver => exact h
  | stopListening hserver herror hends => exact h.stopped hends
  | stopServing hserver hlink herror => exact hbusy hlink hserver
  | serverTooLarge hserver hlink hwants hwanted hcount hsize =>
    exact hbusy hlink (by rw [hserver]; simp)
  | unauthorized hserver hlink hsid => exact hbusy hlink (by rw [hserver]; simp)
  | handlerFails hserver hlink hsid hhandler => exact hbusy hlink (by rw [hserver]; simp)
  | replyRefused hserver hlink hsid hhandler hreply => exact hbusy hlink (by rw [hserver]; simp)
  | wrongAck hserver hlink hack hbyte => exact hbusy hlink (by rw [hserver]; simp)

/-- Once a client has connected and left before the server accepted it, the handler
is never called again, no exchange ends well, and no client that still waits ever
gets a reply. -/
theorem left_instance_serves_no_more {l : Link ι} (hserver : s.server = .listening)
    (hl : s.link = some l) (hclosed : l.closed = true)
    (hrun : Relation.ReflTransGen (Step E) s t) :
    t.calls = s.calls ∧ t.served = s.served ∧ ∀ c, (s.clients c).Waits → (t.clients c).Waits := by
  have habandoned : Abandoned s t := by
    induction hrun with
    | refl => exact ⟨Or.inl ⟨hserver, l, hl, hclosed⟩, rfl, rfl, fun _ hc => hc⟩
    | tail _ hstep ih =>
      rcases hstep with hmove | hfailure
      · exact ih.move hmove
      · exact ih.failure hfailure
  exact ⟨habandoned.calls, habandoned.served, habandoned.waits⟩

theorem left_instance_serves_no_more_echoing : ∃ s t : Net Unit Unit, Reachable echoing () s ∧
    Relation.ReflTransGen (Step echoing) s t ∧ t.server = .stopped ∧
    t.calls = s.calls ∧ t.served = s.served ∧ ∀ c, (s.clients c).Waits → (t.clients c).Waits := by
  obtain ⟨s, hreachable, hlink, hphase, hserver⟩ := echoing_linked
  have hleave : Step echoing s (s.leave () (.returned (.error .cancelled))) :=
    Or.inr (.stopWriting hphase trivial)
  have hstop : Step echoing (s.leave () (.returned (.error .cancelled)))
      ((s.leave () (.returned (.error .cancelled))).finish (.error .cancelled)) :=
    Or.inr (.stopListening hserver trivial rfl)
  have hlinked : (s.leave () (.returned (.error .cancelled))).link = some ⟨(), true, [], []⟩ := by
    show s.link.map (·.drop ()) = _
    rw [hlink]
    rfl
  exact ⟨_, _, hreachable.tail hleave, .single hstop, rfl,
    left_instance_serves_no_more hserver hlinked rfl (.single hstop)⟩

end Abandoned

end LocalSearch.Transport
