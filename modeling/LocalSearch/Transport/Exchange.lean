import LocalSearch.Transport.Pipe

/-!
# What an exchange delivers

Between the two ends of the connected instance nothing is lost or doubled: what
the server has read, what is on its way and what the client has not written yet
make up the request, and the same holds of the reply in the other direction.
From this invariant follows what a client that returns a frame has got, what the
handler was called with, and what the server knows once it is acknowledged.
-/
namespace LocalSearch.Transport

set_option autoImplicit false

open Lib

variable {σ ε ι : Type}

/-- The client has written these bytes of its request, and the acknowledgement
when it has the reply. -/
def ClientPhase.Wrote (encoded : List UInt8) : ClientPhase → List UInt8 → Prop
  | .writing rest, written => rest ≠ [] ∧ written ++ rest = encoded
  | .reading _, written | .acking _, written => written = encoded
  | .returned (.ok _), written => written = encoded ++ [responseAck]
  | .returned (.error _), written => written <+: encoded
  | _, _ => False

/-- The client has read these bytes of the reply; of one that has given up nothing
is known. -/
def ClientPhase.Heard : ClientPhase → List UInt8 → Prop
  | .writing _, heard => heard = []
  | .reading got, heard => heard = got ∧ ∃ wanted, readNext got = .wants wanted
  | .acking frame, heard | .returned (.ok frame), heard => heard = frame ∧ Framed frame
  | .returned (.error _), _ => True
  | _, _ => False

/-- The server has taken these bytes of the request from the pipe. -/
def ServerPhase.taken (encoded : List UInt8) : ServerPhase → List UInt8
  | .listening | .stopped => []
  | .reading got => got
  | .verifying frame => frame
  | .writing _ | .acknowledging => encoded

/-- The handler has not been called for the connected client. -/
def ServerPhase.Before : ServerPhase → Prop
  | .listening | .reading _ | .verifying _ => True
  | _ => False

/-- What the reply is made of: what the client has read, what is on its way and
what the server has not written yet. -/
def ServerPhase.Replied (calls : List (Call ι)) (c : ι) (encoded delivered : List UInt8) :
    ServerPhase → Prop
  | .writing rest => rest ≠ [] ∧ ∃ reply, ⟨c, encoded, .ok reply⟩ ∈ calls ∧ Framed reply ∧
      delivered ++ rest = reply
  | .acknowledging => ∃ reply, ⟨c, encoded, .ok reply⟩ ∈ calls ∧ Framed reply ∧ delivered = reply
  | .listening | .reading _ | .verifying _ => delivered = []
  | .stopped => False

/-- The instance while a call of the library holds the other end. -/
structure Talks (phase : ClientPhase) (server : ServerPhase) (calls : List (Call ι)) (l : Link ι)
    (encoded : List UInt8) : Prop where
  framed : Framed encoded
  wrote : phase.Wrote encoded (server.taken encoded ++ l.toServer)
  replied : ∃ heard, phase.Heard heard ∧
    server.Replied calls l.client encoded (heard ++ l.toClient)
  closed : l.closed = true ↔ ∃ result, phase = .returned result

/-- The instance while a foreign program holds it. -/
def Listens (phase : ClientPhase) (server : ServerPhase) (l : Link ι) : Prop :=
  ∃ sent, (phase = .foreign sent ∨ phase = .left sent) ∧
    (server.Before → server.taken [] ++ l.toServer = sent)

/-- The handler was called with what this client asked. -/
def Asked (program : Program) (phase : ClientPhase) (frame : List UInt8) : Prop :=
  match program with
  | .roundTrip _ encoded => frame = encoded
  | .foreign => ∃ sent, (phase = .foreign sent ∨ phase = .left sent) ∧ frame <+: sent

/-- The calls of the handler, one after another, take one state of the service to
the other and give the recorded answers. -/
inductive Serves (E : Endpoint σ ε ι) (service : σ) : List (Call ι) → σ → Prop
  | nil : Serves E service [] service
  | snoc {calls : List (Call ι)} {before after : σ} {call : Call ι} {around : ε}
      (hcalls : Serves E service calls before)
      (hhandler : E.handler around before call.frame = (after, call.reply)) :
      Serves E service (calls ++ [call]) after

variable (E : Endpoint σ ε ι)

/-- What is known of the connected instance. -/
structure Carries (phase : ClientPhase) (server : ServerPhase) (calls : List (Call ι)) (l : Link ι) :
    Prop where
  talks : ∀ pipeName encoded, E.program l.client = .roundTrip pipeName encoded →
    Talks phase server calls l encoded
  listens : E.program l.client = .foreign → Listens phase server l
  uncalled : server.Before → ∀ call ∈ calls, call.client ≠ l.client

/-- What holds in every state. -/
structure Holds (service : σ) (s : Net σ ι) : Prop where
  carries : ∀ l, s.link = some l → Carries E (s.clients l.client) s.server s.calls l
  within : ∀ got, s.server = .reading got →
    Within prefixBytes maxTransportFrameBytes got ∧ ∃ wanted, readNext got = .wants wanted
  whole : ∀ frame, s.server = .verifying frame → Framed frame
  linked : s.link = none → s.server = .listening ∨ s.server = .stopped
  fresh : ∀ c, s.clients c = .idle ∨ s.clients c = .connecting →
    (∀ l, s.link = some l → l.client ≠ c) ∧ ∀ call ∈ s.calls, call.client ≠ c
  started : ∀ c pipeName encoded, s.clients c = .connecting →
    E.program c = .roundTrip pipeName encoded → Framed encoded
  asked : ∀ call ∈ s.calls, E.sid call.client = E.logonSid ∧ Framed call.frame ∧
    Asked (E.program call.client) (s.clients call.client) call.frame
  once : (s.calls.map (·.client)).Nodup
  results : ∀ c frame, s.clients c = .acking frame ∨ s.clients c = .returned (.ok frame) →
    ∃ pipeName encoded, E.program c = .roundTrip pipeName encoded ∧ ⟨c, encoded, .ok frame⟩ ∈ s.calls
  served : ∀ c ∈ s.served, ∀ pipeName encoded, E.program c = .roundTrip pipeName encoded →
    ∃ frame, s.clients c = .returned (.ok frame)
  sequential : Serves E service s.calls s.service

theorem holds_initial (service : σ) : Holds E service (Net.initial service) where
  carries := by
    intro l hl
    cases hl
  within := by
    intro got hgot
    cases hgot
  whole := by
    intro frame hframe
    cases hframe
  linked := fun _ => Or.inl rfl
  fresh := by
    intro c _
    constructor
    · intro l hl
      cases hl
    · intro call hcall
      cases hcall
  started := by
    intro c pipeName encoded hphase
    cases hphase
  asked := by
    intro call hcall
    cases hcall
  once := List.nodup_nil
  results := by
    intro c frame h
    rcases h with h | h <;> cases h
  served := by
    intro c hc
    cases hc
  sequential := .nil

variable {E} {service : σ} {s : Net σ ι}

/-- A client in the middle of a call of the library. -/
def ClientPhase.Exchanging : ClientPhase → Prop
  | .writing _ | .reading _ | .acking _ => True
  | _ => False

theorem ClientPhase.Exchanging.wrote {phase : ClientPhase} (h : phase.Exchanging)
    {encoded written : List UInt8} (hwrote : phase.Wrote encoded written) : written <+: encoded := by
  cases phase with
  | writing rest => exact ⟨rest, hwrote.2⟩
  | reading got =>
    obtain rfl : written = encoded := hwrote
    exact List.prefix_rfl
  | acking frame =>
    obtain rfl : written = encoded := hwrote
    exact List.prefix_rfl
  | _ => exact False.elim h

/-- Giving up drops the handle and leaves the request cut off. -/
theorem Carries.giveUp {l : Link ι} {old : ClientPhase} {server : ServerPhase}
    {calls : List (Call ι)} (h : Carries E old server calls l) (hold : old.Exchanging)
    (error : WindowsPipeError) :
    Carries E (.returned (.error error)) server calls { l with closed := true } where
  talks := by
    intro pipeName encoded hprogram
    have htalks := h.talks pipeName encoded hprogram
    obtain ⟨heard, -, hreplied⟩ := htalks.replied
    exact ⟨htalks.framed, hold.wrote htalks.wrote, ⟨heard, trivial, hreplied⟩,
      iff_of_true rfl ⟨_, rfl⟩⟩
  listens := by
    intro hprogram
    obtain ⟨sent, hphase, -⟩ := h.listens hprogram
    rcases hphase with rfl | rfl <;> exact False.elim hold
  uncalled := h.uncalled

section Client

variable [DecidableEq ι] {c : ι} {phase : ClientPhase} {link : Option (Link ι)}

/-- A client goes on, and with it perhaps the instance it holds. -/
theorem Holds.client (h : Holds E service s) (hwas : ∀ result, s.clients c ≠ .returned result)
    (hidle : phase ≠ .idle)
    (hconnecting : phase = .connecting → s.clients c = .idle ∧ link = s.link ∧
      ∀ pipeName encoded, E.program c = .roundTrip pipeName encoded → Framed encoded)
    (hsent : ∀ sent, s.clients c = .foreign sent ∨ s.clients c = .left sent →
      ∃ more, phase = .foreign (sent ++ more) ∨ phase = .left (sent ++ more))
    (hresult : ∀ frame, phase = .acking frame ∨ phase = .returned (.ok frame) →
      ∃ pipeName encoded, E.program c = .roundTrip pipeName encoded ∧
        ⟨c, encoded, .ok frame⟩ ∈ s.calls)
    (hlinked : link = none → s.server = .listening ∨ s.server = .stopped)
    (hlink : ∀ l, link = some l → (l.client = c ∨ ∃ l', s.link = some l' ∧ l'.client = l.client) ∧
      Carries E (Function.update s.clients c phase l.client) s.server s.calls l) :
    Holds E service { s.goto c phase with link := link } where
  carries := fun l hl => (hlink l hl).2
  within := h.within
  whole := h.whole
  linked := hlinked
  fresh := by
    intro d hd
    by_cases hdc : d = c
    · have hphase : phase = .connecting := by
        rw [hdc] at hd
        change Function.update s.clients c phase c = _ ∨ Function.update s.clients c phase c = _ at hd
        rw [Function.update_self] at hd
        exact hd.resolve_left hidle
      obtain ⟨hwas, hsame, -⟩ := hconnecting hphase
      have hfresh := h.fresh c (Or.inl hwas)
      rw [hdc]
      exact ⟨fun l hl => hfresh.1 l (hsame.symm.trans hl), hfresh.2⟩
    · change Function.update s.clients c phase d = _ ∨ Function.update s.clients c phase d = _ at hd
      rw [Function.update_of_ne hdc] at hd
      have hfresh := h.fresh d hd
      refine ⟨fun l hl => ?_, hfresh.2⟩
      rcases (hlink l hl).1 with hclient | ⟨l', hl', hclient⟩
      · rw [hclient]
        exact Ne.symm hdc
      · rw [← hclient]
        exact hfresh.1 l' hl'
  started := by
    intro d pipeName encoded hd hprogram
    by_cases hdc : d = c
    · rw [hdc] at hd hprogram
      change Function.update s.clients c phase c = _ at hd
      rw [Function.update_self] at hd
      exact (hconnecting hd).2.2 pipeName encoded hprogram
    · change Function.update s.clients c phase d = _ at hd
      rw [Function.update_of_ne hdc] at hd
      exact h.started d pipeName encoded hd hprogram
  asked := by
    intro call hcall
    obtain ⟨hsid, hframed, hasked⟩ := h.asked call hcall
    refine ⟨hsid, hframed, ?_⟩
    show Asked _ (Function.update s.clients c phase call.client) call.frame
    by_cases hclient : call.client = c
    · rw [hclient, Function.update_self]
      rw [hclient] at hasked
      cases hprogram : E.program c with
      | roundTrip pipeName encoded =>
        rw [hprogram] at hasked
        exact hasked
      | foreign =>
        rw [hprogram] at hasked
        obtain ⟨sent, hphase, hstart⟩ := hasked
        obtain ⟨more, hmore⟩ := hsent sent hphase
        exact ⟨sent ++ more, hmore, hstart.trans (List.prefix_append _ _)⟩
    · rw [Function.update_of_ne hclient]
      exact hasked
  once := h.once
  results := by
    intro d frame hd
    by_cases hdc : d = c
    · rw [hdc] at hd ⊢
      change Function.update s.clients c phase c = _ ∨ Function.update s.clients c phase c = _ at hd
      rw [Function.update_self] at hd
      exact hresult frame hd
    · change Function.update s.clients c phase d = _ ∨ Function.update s.clients c phase d = _ at hd
      rw [Function.update_of_ne hdc] at hd
      exact h.results d frame hd
  served := by
    intro d hd pipeName encoded hprogram
    obtain ⟨frame, hframe⟩ := h.served d hd pipeName encoded hprogram
    have hdc : d ≠ c := fun hdc => hwas _ (hdc ▸ hframe)
    refine ⟨frame, ?_⟩
    show Function.update s.clients c phase d = _
    rw [Function.update_of_ne hdc]
    exact hframe
  sequential := h.sequential

/-- The instance of another client is not touched. -/
theorem Holds.carries_other (h : Holds E service s) {l : Link ι} (hl : s.link = some l)
    (hclient : l.client ≠ c) :
    Carries E (Function.update s.clients c phase l.client) s.server s.calls l := by
  rw [Function.update_of_ne hclient]
  exact h.carries l hl

theorem Holds.leave (h : Holds E service s) (hwas : ∀ result, s.clients c ≠ .returned result)
    (hidle : phase ≠ .idle) (hconnecting : phase ≠ .connecting)
    (hsent : ∀ sent, s.clients c = .foreign sent ∨ s.clients c = .left sent →
      ∃ more, phase = .foreign (sent ++ more) ∨ phase = .left (sent ++ more))
    (hresult : ∀ frame, phase ≠ .acking frame ∧ phase ≠ .returned (.ok frame))
    (hlink : ∀ l, s.link = some l → l.client = c →
      Carries E phase s.server s.calls { l with closed := true }) :
    Holds E service (s.leave c phase) := by
  refine h.client hwas hidle (fun hphase => absurd hphase hconnecting) hsent ?_ ?_ ?_
  · intro frame hframe
    rcases hframe with hframe | hframe
    · exact absurd hframe (hresult frame).1
    · exact absurd hframe (hresult frame).2
  · intro hnone
    exact h.linked (Option.map_eq_none_iff.mp hnone)
  · intro l hl
    obtain ⟨l', hl', rfl⟩ := Option.map_eq_some_iff.mp hl
    by_cases hclient : l'.client = c
    · have hdrop : l'.drop c = { l' with closed := true } := if_pos hclient
      rw [hdrop]
      refine ⟨Or.inl hclient, ?_⟩
      have hphase : Function.update s.clients c phase l'.client = phase := by
        rw [hclient, Function.update_self]
      rw [hphase]
      exact hlink l' hl' hclient
    · have hdrop : l'.drop c = l' := if_neg hclient
      rw [hdrop]
      exact ⟨Or.inr ⟨l', hl', rfl⟩, h.carries_other hl' hclient⟩

theorem Holds.giveUp (h : Holds E service s) (hphase : (s.clients c).Exchanging)
    (error : WindowsPipeError) : Holds E service (s.leave c (.returned (.error error))) := by
  apply h.leave
  · intro result hresult
    rw [hresult] at hphase
    exact hphase
  · simp
  · simp
  · intro sent hsent
    rcases hsent with hsent | hsent <;> rw [hsent] at hphase <;> exact False.elim hphase
  · exact fun frame => ⟨by simp, by simp⟩
  · intro l hl hclient
    have hcarries := h.carries l hl
    rw [hclient] at hcarries
    exact hcarries.giveUp hphase error

/-- A client that holds no instance yet. -/
theorem Holds.aside (h : Holds E service s) (hfresh : s.clients c = .idle ∨ s.clients c = .connecting)
    (hidle : phase ≠ .idle)
    (hconnecting : phase = .connecting → s.clients c = .idle ∧
      ∀ pipeName encoded, E.program c = .roundTrip pipeName encoded → Framed encoded)
    (hresult : ∀ frame, phase ≠ .acking frame ∧ phase ≠ .returned (.ok frame)) :
    Holds E service (s.goto c phase) := by
  refine h.client ?_ hidle (fun hphase => ⟨(hconnecting hphase).1, rfl, (hconnecting hphase).2⟩)
    ?_ ?_ h.linked ?_
  · intro result hresult
    rcases hfresh with hfresh | hfresh <;> rw [hresult] at hfresh <;> cases hfresh
  · intro sent hsent
    rcases hsent with hsent | hsent <;> rw [hsent] at hfresh <;> rcases hfresh with hfresh | hfresh <;>
      cases hfresh
  · intro frame hframe
    rcases hframe with hframe | hframe
    · exact absurd hframe (hresult frame).1
    · exact absurd hframe (hresult frame).2
  · intro l hl
    exact ⟨Or.inr ⟨l, hl, rfl⟩, h.carries_other hl ((h.fresh c hfresh).1 l hl)⟩

theorem Holds.refused (h : Holds E service s) (hfresh : s.clients c = .idle ∨ s.clients c = .connecting)
    (error : WindowsPipeError) : Holds E service (s.goto c (.returned (.error error))) := by
  apply h.aside hfresh
  · simp
  · simp
  · exact fun frame => ⟨by simp, by simp⟩

/-- The client at the other end of the instance goes on. -/
theorem Holds.connected (h : Holds E service s) {l l' : Link ι}
    (hsame : l'.client = l.client) (hwas : ∀ result, s.clients l.client ≠ .returned result)
    (hphase : phase ≠ .idle ∧ phase ≠ .connecting)
    (hsent : ∀ sent, s.clients l.client = .foreign sent ∨ s.clients l.client = .left sent →
      ∃ more, phase = .foreign (sent ++ more) ∨ phase = .left (sent ++ more))
    (hresult : ∀ frame, phase = .acking frame ∨ phase = .returned (.ok frame) →
      ∃ pipeName encoded, E.program l.client = .roundTrip pipeName encoded ∧
        ⟨l.client, encoded, .ok frame⟩ ∈ s.calls)
    (hcarries : Carries E phase s.server s.calls l') :
    Holds E service { s.goto l.client phase with link := some l' } := by
  refine h.client hwas hphase.1 (fun hconnecting => absurd hconnecting hphase.2) hsent hresult
    (fun hnone => by cases hnone) ?_
  intro l'' hl''
  obtain rfl := Option.some.inj hl''
  refine ⟨Or.inl hsame, ?_⟩
  rw [hsame, Function.update_self]
  exact hcarries

theorem Holds.start (h : Holds E service s) {pipeName : String} {encoded : List UInt8}
    (hphase : s.clients c = .idle) (hprogram : E.program c = .roundTrip pipeName encoded)
    (hframe : validateEncodedFrame encoded = .ok ()) : Holds E service (s.goto c .connecting) := by
  apply h.aside (Or.inl hphase)
  · simp
  · intro _
    refine ⟨hphase, fun name bytes hsame => ?_⟩
    rw [hprogram] at hsame
    cases hsame
    exact validateEncodedFrame_eq_ok.mp hframe
  · exact fun frame => ⟨by simp, by simp⟩

/-- A new connection has nothing on its way. -/
theorem Holds.opened (h : Holds E service s) (hfresh : s.clients c = .idle ∨ s.clients c = .connecting)
    (hlink : s.link = none) (hphase : phase ≠ .idle ∧ phase ≠ .connecting)
    (hresult : ∀ frame, phase ≠ .acking frame ∧ phase ≠ .returned (.ok frame))
    (htalks : ∀ pipeName encoded, E.program c = .roundTrip pipeName encoded →
      Talks phase .listening s.calls ⟨c, false, [], []⟩ encoded)
    (hlistens : E.program c = .foreign → Listens phase .listening (⟨c, false, [], []⟩ : Link ι))
    (hserver : s.server ≠ .stopped) :
    Holds E service { s.goto c phase with link := some ⟨c, false, [], []⟩ } := by
  have hlistening : s.server = .listening := (h.linked hlink).resolve_right hserver
  refine h.client ?_ hphase.1 (fun hconnecting => absurd hconnecting hphase.2) ?_ ?_
    (fun hnone => by cases hnone) ?_
  · intro result hresult
    rcases hfresh with hfresh | hfresh <;> rw [hresult] at hfresh <;> cases hfresh
  · intro sent hsent
    rcases hsent with hsent | hsent <;> rw [hsent] at hfresh <;> rcases hfresh with hfresh | hfresh <;>
      cases hfresh
  · intro frame hframe
    rcases hframe with hframe | hframe
    · exact absurd hframe (hresult frame).1
    · exact absurd hframe (hresult frame).2
  · intro l hl
    obtain rfl := Option.some.inj hl
    refine ⟨Or.inl rfl, ?_⟩
    rw [Function.update_self, hlistening]
    exact ⟨htalks, hlistens, fun _ => (h.fresh c hfresh).2⟩

theorem Holds.connect (h : Holds E service s) {pipeName : String} {encoded : List UInt8}
    (hphase : s.clients c = .connecting) (hprogram : E.program c = .roundTrip pipeName encoded)
    (hlink : s.link = none) (hserver : s.server ≠ .stopped) :
    Holds E service { s.goto c (.writing encoded) with link := some ⟨c, false, [], []⟩ } := by
  have hframed := h.started c pipeName encoded hphase hprogram
  apply h.opened (Or.inr hphase) hlink
  · exact ⟨by simp, by simp⟩
  · exact fun frame => ⟨by simp, by simp⟩
  · intro name bytes hsame
    rw [hprogram] at hsame
    cases hsame
    exact ⟨hframed, ⟨hframed.ne_nil, rfl⟩, ⟨[], rfl, rfl⟩,
      iff_of_false Bool.false_ne_true (by simp)⟩
  · intro hforeign
    rw [hprogram] at hforeign
    cases hforeign
  · exact hserver

theorem Holds.foreignConnect (h : Holds E service s) (hphase : s.clients c = .idle)
    (hprogram : E.program c = .foreign) (hlink : s.link = none) (hserver : s.server ≠ .stopped) :
    Holds E service { s.goto c (.foreign []) with link := some ⟨c, false, [], []⟩ } := by
  apply h.opened (Or.inl hphase) hlink
  · exact ⟨by simp, by simp⟩
  · exact fun frame => ⟨by simp, by simp⟩
  · intro name bytes hsame
    rw [hprogram] at hsame
    cases hsame
  · intro _
    exact ⟨[], Or.inl rfl, fun _ => rfl⟩
  · exact hserver

end Client

/-- What is read of a reply and makes a whole frame is the reply. -/
theorem ServerPhase.Replied.whole {calls : List (Call ι)} {c : ι} {encoded heard rest : List UInt8}
    {server : ServerPhase} (h : server.Replied calls c encoded (heard ++ rest))
    (hwhole : readNext heard = .whole) : Framed heard ∧ ⟨c, encoded, .ok heard⟩ ∈ calls := by
  have hreply : ∀ {more reply : List UInt8}, heard ++ more = reply → Framed reply → heard = reply := by
    intro more reply hmore hframed
    rw [← hmore] at hframed
    rcases readNext_of_prefix hframed with ⟨hnil, -⟩ | ⟨count, hwants, -⟩
    · rw [← hmore, hnil, List.append_nil]
    · rw [hwhole] at hwants
      cases hwants
  have hnone : heard ++ rest = [] → False := by
    intro hnil
    rw [(List.append_eq_nil_iff.mp hnil).1, readNext_nil] at hwhole
    cases hwhole
  cases server with
  | writing unsent =>
    obtain ⟨-, reply, hcall, hframed, hmore⟩ := h
    rw [List.append_assoc] at hmore
    obtain rfl := hreply hmore hframed
    exact ⟨hframed, hcall⟩
  | acknowledging =>
    obtain ⟨reply, hcall, hframed, hmore⟩ := h
    obtain rfl := hreply hmore hframed
    exact ⟨hframed, hcall⟩
  | stopped => exact False.elim h
  | _ => exact (hnone h).elim

/-- Of a reply no part is too large. -/
theorem wants_or_whole {got : List UInt8} (h : readNext got ≠ .tooLarge) :
    readNext got = .whole ∨ ∃ wanted, readNext got = .wants wanted := by
  cases hnext : readNext got with
  | wants wanted => exact Or.inr ⟨wanted, rfl⟩
  | whole => exact Or.inl rfl
  | tooLarge => exact absurd hnext h

section Pieces

variable {l : Link ι} {server : ServerPhase} {calls : List (Call ι)} {count : Nat}

theorem Carries.clientWrite {rest : List UInt8} (h : Carries E (.writing rest) server calls l) :
    Carries E (clientAfterWrite (rest.drop count)) server calls
      { l with toServer := l.toServer ++ rest.take count } where
  talks := by
    intro pipeName encoded hprogram
    obtain ⟨hframed, ⟨-, hwrote⟩, ⟨heard, hheard, hreplied⟩, hclosed⟩ := h.talks pipeName encoded hprogram
    obtain rfl : heard = [] := hheard
    have hall : server.taken encoded ++ (l.toServer ++ rest.take count) ++ rest.drop count = encoded := by
      rw [← List.append_assoc, List.append_assoc _ (rest.take count), List.take_append_drop]
      exact hwrote
    have hopen : ¬ l.closed = true := by simp [hclosed]
    unfold clientAfterWrite
    split
    · next hnil =>
      rw [hnil, List.append_nil] at hall
      exact ⟨hframed, hall, ⟨[], ⟨rfl, 4, readNext_nil⟩, hreplied⟩,
        iff_of_false hopen (by simp)⟩
    · next hne =>
      exact ⟨hframed, ⟨hne, hall⟩, ⟨[], rfl, hreplied⟩,
        iff_of_false hopen (by simp)⟩
  listens := by
    intro hprogram
    obtain ⟨sent, hphase, -⟩ := h.listens hprogram
    rcases hphase with hphase | hphase <;> cases hphase
  uncalled := h.uncalled

theorem Carries.clientRead {got : List UInt8} (h : Carries E (.reading got) server calls l)
    (hsize : readNext (got ++ l.toClient.take count) ≠ .tooLarge) :
    Carries E (clientAfterRead (got ++ l.toClient.take count)) server calls
      { l with toClient := l.toClient.drop count } where
  talks := by
    intro pipeName encoded hprogram
    obtain ⟨hframed, hwrote, ⟨heard, ⟨hheard, -⟩, hreplied⟩, hclosed⟩ := h.talks pipeName encoded hprogram
    obtain rfl := hheard
    have hall : heard ++ l.toClient.take count ++ l.toClient.drop count = heard ++ l.toClient := by
      rw [List.append_assoc, List.take_append_drop]
    rw [← hall] at hreplied
    have hopen : ¬ l.closed = true := by simp [hclosed]
    unfold clientAfterRead
    split
    · next hwhole =>
      exact ⟨hframed, hwrote, ⟨_, ⟨rfl, hreplied.whole hwhole |>.1⟩, hreplied⟩,
        iff_of_false hopen (by simp)⟩
    · next hpart =>
      exact ⟨hframed, hwrote, ⟨_, ⟨rfl, (wants_or_whole hsize).resolve_left hpart⟩, hreplied⟩,
        iff_of_false hopen (by simp)⟩
  listens := by
    intro hprogram
    obtain ⟨sent, hphase, -⟩ := h.listens hprogram
    rcases hphase with hphase | hphase <;> cases hphase
  uncalled := h.uncalled

theorem Carries.acknowledge {frame : List UInt8} (h : Carries E (.acking frame) server calls l) :
    Carries E (.returned (.ok frame)) server calls
      { l with toServer := l.toServer ++ [responseAck], closed := true } where
  talks := by
    intro pipeName encoded hprogram
    obtain ⟨hframed, hwrote, hreplied, -⟩ := h.talks pipeName encoded hprogram
    have hwrote : server.taken encoded ++ l.toServer = encoded := hwrote
    refine ⟨hframed, ?_, hreplied, iff_of_true rfl ⟨_, rfl⟩⟩
    show server.taken encoded ++ (l.toServer ++ [responseAck]) = encoded ++ [responseAck]
    rw [← List.append_assoc, hwrote]
  listens := by
    intro hprogram
    obtain ⟨sent, hphase, -⟩ := h.listens hprogram
    rcases hphase with hphase | hphase <;> cases hphase
  uncalled := h.uncalled

theorem Carries.foreignWrite {sent : List UInt8} (h : Carries E (.foreign sent) server calls l)
    (bytes : List UInt8) :
    Carries E (.foreign (sent ++ bytes)) server calls
      { l with toServer := l.toServer ++ bytes } where
  talks := fun pipeName encoded hprogram => False.elim (h.talks pipeName encoded hprogram).wrote
  listens := by
    intro hprogram
    obtain ⟨sent', hphase, hsent⟩ := h.listens hprogram
    rcases hphase with hphase | hphase
    · cases hphase
      refine ⟨sent ++ bytes, Or.inl rfl, fun hbefore => ?_⟩
      show server.taken [] ++ (l.toServer ++ bytes) = sent ++ bytes
      rw [← List.append_assoc, hsent hbefore]
    · cases hphase
  uncalled := h.uncalled

theorem Carries.foreignLeave {sent : List UInt8} (h : Carries E (.foreign sent) server calls l) :
    Carries E (.left sent) server calls { l with closed := true } where
  talks := fun pipeName encoded hprogram => False.elim (h.talks pipeName encoded hprogram).wrote
  listens := by
    intro hprogram
    obtain ⟨sent', hphase, hsent⟩ := h.listens hprogram
    rcases hphase with hphase | hphase
    · cases hphase
      exact ⟨sent, Or.inr rfl, hsent⟩
    · cases hphase
  uncalled := h.uncalled

theorem Carries.foreignRead {sent : List UInt8} (h : Carries E (.foreign sent) server calls l) :
    Carries E (.foreign sent) server calls { l with toClient := l.toClient.drop count } where
  talks := fun pipeName encoded hprogram => False.elim (h.talks pipeName encoded hprogram).wrote
  listens := h.listens
  uncalled := h.uncalled

variable {phase : ClientPhase}

theorem Carries.accept (h : Carries E phase .listening calls l) :
    Carries E phase (.reading []) calls l where
  talks := by
    intro pipeName encoded hprogram
    have htalks := h.talks pipeName encoded hprogram
    exact ⟨htalks.framed, htalks.wrote, htalks.replied, htalks.closed⟩
  listens := h.listens
  uncalled := h.uncalled

theorem taken_serverAfterRead (encoded got : List UInt8) :
    (serverAfterRead got).taken encoded = got := by
  unfold serverAfterRead
  split <;> rfl

theorem replied_serverAfterRead {c : ι} {encoded delivered : List UInt8} (got : List UInt8) :
    (serverAfterRead got).Replied calls c encoded delivered ↔ delivered = [] := by
  unfold serverAfterRead
  split <;> rfl

theorem Carries.serverRead {got : List UInt8} (h : Carries E phase (.reading got) calls l) :
    Carries E phase (serverAfterRead (got ++ l.toServer.take count)) calls
      { l with toServer := l.toServer.drop count } where
  talks := by
    intro pipeName encoded hprogram
    obtain ⟨hframed, hwrote, ⟨heard, hheard, hreplied⟩, hclosed⟩ := h.talks pipeName encoded hprogram
    refine ⟨hframed, ?_, ⟨heard, hheard, (replied_serverAfterRead _).mpr hreplied⟩, hclosed⟩
    rw [taken_serverAfterRead, List.append_assoc, List.take_append_drop]
    exact hwrote
  listens := by
    intro hprogram
    obtain ⟨sent, hphase, hsent⟩ := h.listens hprogram
    refine ⟨sent, hphase, fun _ => ?_⟩
    rw [taken_serverAfterRead, List.append_assoc, List.take_append_drop]
    exact hsent trivial
  uncalled := fun _ => h.uncalled trivial

theorem Carries.serverWrite {rest : List UInt8} (h : Carries E phase (.writing rest) calls l) :
    Carries E phase (serverAfterWrite (rest.drop count)) calls
      { l with toClient := l.toClient ++ rest.take count } where
  talks := by
    intro pipeName encoded hprogram
    obtain ⟨hframed, hwrote, ⟨heard, hheard, -, reply, hcall, hreply, hmore⟩, hclosed⟩ :=
      h.talks pipeName encoded hprogram
    have hall : heard ++ (l.toClient ++ rest.take count) ++ rest.drop count = reply := by
      rw [← List.append_assoc, List.append_assoc _ (rest.take count), List.take_append_drop]
      exact hmore
    unfold serverAfterWrite
    split
    · next hnil =>
      rw [hnil, List.append_nil] at hall
      exact ⟨hframed, hwrote, ⟨heard, hheard, reply, hcall, hreply, hall⟩, hclosed⟩
    · next hne =>
      exact ⟨hframed, hwrote, ⟨heard, hheard, hne, reply, hcall, hreply, hall⟩, hclosed⟩
  listens := by
    intro hprogram
    obtain ⟨sent, hphase, -⟩ := h.listens hprogram
    refine ⟨sent, hphase, fun hbefore => ?_⟩
    unfold serverAfterWrite at hbefore
    split at hbefore <;> exact False.elim hbefore
  uncalled := by
    intro hbefore
    unfold serverAfterWrite at hbefore
    split at hbefore <;> exact False.elim hbefore

/-- A whole frame is what the client asked. -/
theorem Carries.asked {frame : List UInt8} (h : Carries E phase (.verifying frame) calls l)
    (hframe : Framed frame) : Asked (E.program l.client) phase frame := by
  cases hprogram : E.program l.client with
  | roundTrip pipeName encoded =>
    obtain ⟨hframed, hwrote, ⟨heard, hheard, hreplied⟩, -⟩ := h.talks pipeName encoded hprogram
    have hstart : ∀ {more : List UInt8}, frame ++ l.toServer ++ more = encoded → frame = encoded := by
      intro more hmore
      exact hframe.eq_of_isPrefix hframed ⟨l.toServer ++ more, by rw [← List.append_assoc, hmore]⟩
    show frame = encoded
    cases phase with
    | writing rest => exact hstart hwrote.2
    | reading got =>
      have hwrote : frame ++ l.toServer = encoded := hwrote
      exact @hstart [] (by rw [List.append_nil, hwrote])
    | acking reply =>
      have hwrote : frame ++ l.toServer = encoded := hwrote
      exact @hstart [] (by rw [List.append_nil, hwrote])
    | returned result =>
      cases result with
      | error error =>
        obtain ⟨more, hmore⟩ := hwrote
        exact hstart hmore
      | ok reply =>
        -- A reply cannot have been read before the handler was called.
        have hnil : heard ++ l.toClient = [] := hreplied
        obtain ⟨rfl, hreply⟩ := hheard
        exact absurd (List.append_eq_nil_iff.mp hnil).1 hreply.ne_nil
    | _ => exact False.elim hwrote
  | foreign =>
    obtain ⟨sent, hphase, hsent⟩ := h.listens hprogram
    exact ⟨sent, hphase, ⟨l.toServer, hsent trivial⟩⟩

theorem Carries.handle {frame reply : List UInt8} (h : Carries E phase (.verifying frame) calls l)
    (hframe : Framed frame) (hreply : Framed reply) :
    Carries E phase (.writing reply) (calls ++ [⟨l.client, frame, .ok reply⟩]) l where
  talks := by
    intro pipeName encoded hprogram
    obtain ⟨hframed, hwrote, ⟨heard, hheard, hreplied⟩, hclosed⟩ := h.talks pipeName encoded hprogram
    have hasked := h.asked hframe
    rw [hprogram] at hasked
    obtain rfl : frame = encoded := hasked
    have hnil : heard ++ l.toClient = [] := hreplied
    refine ⟨hframed, hwrote, ⟨heard, hheard, hreply.ne_nil, reply, ?_, hreply, ?_⟩, hclosed⟩
    · exact List.mem_append_right _ (List.mem_singleton.mpr rfl)
    · rw [hnil, List.nil_append]
  listens := by
    intro hprogram
    obtain ⟨sent, hphase, -⟩ := h.listens hprogram
    exact ⟨sent, hphase, fun hbefore => False.elim hbefore⟩
  uncalled := fun hbefore => False.elim hbefore

/-- Only a client that has returned the reply has acknowledged it. -/
theorem Carries.acked {more : List UInt8} (h : Carries E phase .acknowledging calls l)
    (hack : l.toServer = responseAck :: more) {pipeName : String} {encoded : List UInt8}
    (hprogram : E.program l.client = .roundTrip pipeName encoded) :
    ∃ frame, phase = .returned (.ok frame) := by
  have hwrote := (h.talks pipeName encoded hprogram).wrote
  rw [hack] at hwrote
  have hlong : encoded.length < (encoded ++ responseAck :: more).length := by
    rw [List.length_append, List.length_cons]
    omega
  cases phase with
  | writing rest =>
    have hlength := congrArg List.length hwrote.2
    rw [List.length_append] at hlength
    change (encoded ++ responseAck :: more).length + rest.length = encoded.length at hlength
    omega
  | reading got =>
    have hlength : (encoded ++ responseAck :: more).length = encoded.length := congrArg List.length hwrote
    omega
  | acking frame =>
    have hlength : (encoded ++ responseAck :: more).length = encoded.length := congrArg List.length hwrote
    omega
  | returned result =>
    cases result with
    | error error =>
      have hlength : (encoded ++ responseAck :: more).length ≤ encoded.length :=
        List.IsPrefix.length_le hwrote
      omega
    | ok frame => exact ⟨frame, rfl⟩
  | _ => exact False.elim hwrote

end Pieces

section Server

variable {server : ServerPhase} {link : Option (Link ι)} {l : Link ι}

theorem Holds.serve (h : Holds E service s)
    (hwithin : ∀ got, server = .reading got →
      Within prefixBytes maxTransportFrameBytes got ∧ ∃ wanted, readNext got = .wants wanted)
    (hwhole : ∀ frame, server = .verifying frame → Framed frame)
    (hlinked : link = none → server = .listening ∨ server = .stopped)
    (hlink : ∀ l, link = some l → (∃ l', s.link = some l' ∧ l'.client = l.client) ∧
      Carries E (s.clients l.client) server s.calls l) :
    Holds E service { s with server := server, link := link } where
  carries := fun l hl => (hlink l hl).2
  within := hwithin
  whole := hwhole
  linked := hlinked
  fresh := by
    intro c hc
    obtain ⟨hapart, huncalled⟩ := h.fresh c hc
    refine ⟨fun l hl => ?_, huncalled⟩
    obtain ⟨⟨l', hl', hsame⟩, -⟩ := hlink l hl
    rw [← hsame]
    exact hapart l' hl'
  started := h.started
  asked := h.asked
  once := h.once
  results := h.results
  served := h.served
  sequential := h.sequential

theorem afterServing_quiet (result : Except WindowsPipeError Unit) :
    afterServing result = .listening ∨ afterServing result = .stopped := by
  unfold afterServing
  split
  · exact Or.inl rfl
  · exact Or.inl rfl
  · exact Or.inr rfl

theorem Holds.finish (h : Holds E service s) (result : Except WindowsPipeError Unit) :
    Holds E service (s.finish result) := by
  have hquiet := afterServing_quiet result
  apply h.serve
  · intro got hgot
    rcases hquiet with hquiet | hquiet <;> rw [hquiet] at hgot <;> cases hgot
  · intro frame hframe
    rcases hquiet with hquiet | hquiet <;> rw [hquiet] at hframe <;> cases hframe
  · exact fun _ => hquiet
  · intro l hl
    cases hl

/-- The handler is called for the connected client. -/
theorem Holds.call (h : Holds E service s) {frame : List UInt8} {around : ε} {after : σ}
    {reply : Except WindowsPipeError (List UInt8)} (hserver : s.server = .verifying frame)
    (hl : s.link = some l) (hsid : E.sid l.client = E.logonSid)
    (hhandler : E.handler around s.service frame = (after, reply))
    (hwithin : ∀ got, server ≠ .reading got) (hwhole : ∀ frame, server ≠ .verifying frame)
    (hlinked : link = none → server = .listening ∨ server = .stopped)
    (hlink : ∀ l', link = some l' → l' = l ∧
      Carries E (s.clients l.client) server (s.calls ++ [⟨l.client, frame, reply⟩]) l) :
    Holds E service
      { s.record after ⟨l.client, frame, reply⟩ with server := server, link := link } := by
  have hframe := h.whole frame hserver
  have hcarries := h.carries l hl
  rw [hserver] at hcarries
  exact {
    carries := fun l' hl' => by
      obtain ⟨rfl, hcarries⟩ := hlink l' hl'
      exact hcarries
    within := fun got hgot => absurd hgot (hwithin got)
    whole := fun frame hframe => absurd hframe (hwhole frame)
    linked := hlinked
    fresh := fun c hc => by
      obtain ⟨hapart, huncalled⟩ := h.fresh c hc
      constructor
      · intro l' hl'
        obtain ⟨rfl, -⟩ := hlink l' hl'
        exact hapart l' hl
      · intro call hcall
        rcases List.mem_append.mp hcall with hcall | hcall
        · exact huncalled call hcall
        · rw [List.mem_singleton.mp hcall]
          exact hapart l hl
    started := h.started
    asked := fun call hcall => by
      rcases List.mem_append.mp hcall with hcall | hcall
      · exact h.asked call hcall
      · rw [List.mem_singleton.mp hcall]
        exact ⟨hsid, hframe, hcarries.asked hframe⟩
    once := by
      show ((s.calls ++ [(⟨l.client, frame, reply⟩ : Call ι)]).map fun call => call.client).Nodup
      rw [List.map_append, List.map_singleton, List.nodup_append]
      refine ⟨h.once, List.pairwise_singleton _ _, ?_⟩
      intro c hc d hd
      obtain ⟨call, hcall, rfl⟩ := List.mem_map.mp hc
      rw [List.mem_singleton.mp hd]
      exact hcarries.uncalled trivial call hcall
    results := fun c reply hc => by
      obtain ⟨pipeName, encoded, hprogram, hcall⟩ := h.results c reply hc
      exact ⟨pipeName, encoded, hprogram, List.mem_append_left _ hcall⟩
    served := h.served
    sequential := .snoc h.sequential hhandler }

theorem Holds.accept (h : Holds E service s) (hserver : s.server = .listening)
    (hl : s.link = some l) : Holds E service { s with server := .reading [] } := by
  have hcarries := h.carries l hl
  rw [hserver] at hcarries
  have hserved := @h.serve _ _ _ _ _ _ (.reading []) s.link
  refine hserved ?_ ?_ ?_ ?_
  · intro got hgot
    cases hgot
    exact ⟨within_nil, 4, readNext_nil⟩
  · intro frame hframe
    cases hframe
  · intro hnone
    rw [hl] at hnone
    cases hnone
  · intro l' hl'
    obtain rfl := Option.some.inj (hl.symm.trans hl')
    exact ⟨⟨l, hl, rfl⟩, hcarries.accept⟩

theorem Holds.serverRead (h : Holds E service s) {got : List UInt8} {wanted count : Nat}
    (hserver : s.server = .reading got) (hl : s.link = some l)
    (hwants : readNext got = .wants wanted) (hwanted : count ≤ wanted)
    (hsize : readNext (got ++ l.toServer.take count) ≠ .tooLarge) :
    Holds E service { s with
      server := serverAfterRead (got ++ l.toServer.take count)
      link := some { l with toServer := l.toServer.drop count } } := by
  have hcarries := h.carries l hl
  rw [hserver] at hcarries
  have hwithin : Within prefixBytes maxTransportFrameBytes (got ++ l.toServer.take count) := by
    refine Within.append hwants ?_
    rw [List.length_take]
    omega
  refine h.serve ?_ ?_ ?_ ?_
  · intro got' hgot
    unfold serverAfterRead at hgot
    split at hgot
    · cases hgot
    · next hpart =>
      cases hgot
      exact ⟨hwithin, (wants_or_whole hsize).resolve_left hpart⟩
  · intro frame hframe
    unfold serverAfterRead at hframe
    split at hframe
    · next hwhole =>
      cases hframe
      exact isFrame_of_whole hwithin hwhole
    · cases hframe
  · intro hnone
    cases hnone
  · intro l' hl'
    obtain rfl := Option.some.inj hl'
    exact ⟨⟨l, hl, rfl⟩, hcarries.serverRead⟩

theorem Holds.serverWrite (h : Holds E service s) {rest : List UInt8} {count : Nat}
    (hserver : s.server = .writing rest) (hl : s.link = some l) :
    Holds E service { s with
      server := serverAfterWrite (rest.drop count)
      link := some { l with toClient := l.toClient ++ rest.take count } } := by
  have hcarries := h.carries l hl
  rw [hserver] at hcarries
  refine h.serve ?_ ?_ ?_ ?_
  · intro got hgot
    unfold serverAfterWrite at hgot
    split at hgot <;> cases hgot
  · intro frame hframe
    unfold serverAfterWrite at hframe
    split at hframe <;> cases hframe
  · intro hnone
    cases hnone
  · intro l' hl'
    obtain rfl := Option.some.inj hl'
    exact ⟨⟨l, hl, rfl⟩, hcarries.serverWrite⟩

theorem Holds.handle (h : Holds E service s) {frame reply : List UInt8} {around : ε} {after : σ}
    (hserver : s.server = .verifying frame) (hl : s.link = some l)
    (hsid : E.sid l.client = E.logonSid)
    (hhandler : E.handler around s.service frame = (after, .ok reply))
    (hreply : validateEncodedFrame reply = .ok ()) :
    Holds E service { s.record after ⟨l.client, frame, .ok reply⟩ with server := .writing reply } := by
  have hcarries := h.carries l hl
  rw [hserver] at hcarries
  refine @Holds.call _ _ _ _ _ _ _ s.link l h _ _ _ _ hserver hl hsid hhandler (by simp) (by simp) ?_ ?_
  · intro hnone
    rw [hl] at hnone
    cases hnone
  · intro l' hl'
    obtain rfl := Option.some.inj (hl.symm.trans hl')
    exact ⟨rfl, hcarries.handle (h.whole frame hserver) (validateEncodedFrame_eq_ok.mp hreply)⟩

theorem Holds.callFails (h : Holds E service s) {frame : List UInt8} {around : ε} {after : σ}
    {reply : Except WindowsPipeError (List UInt8)} (hserver : s.server = .verifying frame)
    (hl : s.link = some l) (hsid : E.sid l.client = E.logonSid)
    (hhandler : E.handler around s.service frame = (after, reply)) (error : WindowsPipeError) :
    Holds E service ((s.record after ⟨l.client, frame, reply⟩).finish (.error error)) := by
  have hquiet := afterServing_quiet (.error error)
  refine @Holds.call _ _ _ _ _ _ _ none l h _ _ _ _ hserver hl hsid hhandler ?_ ?_ (fun _ => hquiet) (by simp)
  · intro got hgot
    rcases hquiet with hquiet | hquiet <;> rw [hquiet] at hgot <;> cases hgot
  · intro frame hframe
    rcases hquiet with hquiet | hquiet <;> rw [hquiet] at hframe <;> cases hframe

theorem Holds.readAck (h : Holds E service s) {more : List UInt8} (hserver : s.server = .acknowledging)
    (hl : s.link = some l) (hack : l.toServer = responseAck :: more) :
    Holds E service { s.finish (.ok ()) with served := s.served ++ [l.client] } := by
  have hfinish := h.finish (.ok ())
  have hcarries := h.carries l hl
  rw [hserver] at hcarries
  exact { hfinish with
    served := by
      intro c hc pipeName encoded hprogram
      rcases List.mem_append.mp hc with hc | hc
      · exact h.served c hc pipeName encoded hprogram
      · obtain rfl := List.mem_singleton.mp hc
        exact hcarries.acked hack hprogram }

theorem Holds.foreignReads (h : Holds E service s) {l : Link ι} {sent : List UInt8} {count : Nat}
    (hl : s.link = some l) (hphase : s.clients l.client = .foreign sent) :
    Holds E service { s with link := some { l with toClient := l.toClient.drop count } } := by
  have hcarries := h.carries l hl
  rw [hphase] at hcarries
  refine h.serve h.within h.whole (by simp) ?_
  intro l' hl'
  obtain rfl := Option.some.inj hl'
  refine ⟨⟨l, hl, rfl⟩, ?_⟩
  rw [show s.clients l.client = .foreign sent from hphase]
  exact hcarries.foreignRead

end Server

section Runs

variable [DecidableEq ι] {t : Net σ ι}

theorem Holds.clientWrites (h : Holds E service s) {l : Link ι} {rest : List UInt8} {count : Nat}
    (hl : s.link = some l) (hphase : s.clients l.client = .writing rest) :
    Holds E service { s.goto l.client (clientAfterWrite (rest.drop count)) with
      link := some { l with toServer := l.toServer ++ rest.take count } } := by
  have hcarries := h.carries l hl
  rw [hphase] at hcarries
  refine h.connected rfl (by simp [hphase]) ?_ (by simp [hphase]) ?_ hcarries.clientWrite
  · unfold clientAfterWrite
    split <;> exact ⟨by simp, by simp⟩
  · intro frame hframe
    unfold clientAfterWrite at hframe
    split at hframe <;> simp at hframe

theorem Holds.clientReads (h : Holds E service s) {l : Link ι} {got : List UInt8} {count : Nat}
    (hl : s.link = some l) (hphase : s.clients l.client = .reading got)
    (hsize : readNext (got ++ l.toClient.take count) ≠ .tooLarge) :
    Holds E service { s.goto l.client (clientAfterRead (got ++ l.toClient.take count)) with
      link := some { l with toClient := l.toClient.drop count } } := by
  have hcarries := h.carries l hl
  rw [hphase] at hcarries
  refine h.connected rfl (by simp [hphase]) ?_ (by simp [hphase]) ?_ (hcarries.clientRead hsize)
  · unfold clientAfterRead
    split <;> exact ⟨by simp, by simp⟩
  · intro frame hframe
    unfold clientAfterRead at hframe
    split at hframe
    · next hwhole =>
      obtain rfl : got ++ l.toClient.take count = frame := by simpa using hframe
      cases hprogram : E.program l.client with
      | roundTrip pipeName encoded =>
        obtain ⟨heard, ⟨rfl, -⟩, hreplied⟩ := (hcarries.talks pipeName encoded hprogram).replied
        rw [← List.take_append_drop count l.toClient, ← List.append_assoc] at hreplied
        exact ⟨pipeName, encoded, rfl, (hreplied.whole hwhole).2⟩
      | foreign =>
        obtain ⟨sent, hforeign, -⟩ := hcarries.listens hprogram
        rcases hforeign with hforeign | hforeign <;> cases hforeign
    · simp at hframe

theorem Holds.acknowledges (h : Holds E service s) {l : Link ι} {frame : List UInt8}
    (hl : s.link = some l) (hphase : s.clients l.client = .acking frame) :
    Holds E service { s.goto l.client (.returned (.ok frame)) with
      link := some { l with toServer := l.toServer ++ [responseAck], closed := true } } := by
  have hcarries := h.carries l hl
  rw [hphase] at hcarries
  refine h.connected rfl (by simp [hphase]) ⟨by simp, by simp⟩ (by simp [hphase]) ?_ hcarries.acknowledge
  intro frame' hframe
  obtain rfl : frame = frame' := by simpa using hframe
  exact h.results l.client frame (Or.inl hphase)

theorem Holds.foreignWrites (h : Holds E service s) {l : Link ι} {sent : List UInt8}
    (hl : s.link = some l) (hphase : s.clients l.client = .foreign sent) (bytes : List UInt8) :
    Holds E service { s.goto l.client (.foreign (sent ++ bytes)) with
      link := some { l with toServer := l.toServer ++ bytes } } := by
  have hcarries := h.carries l hl
  rw [hphase] at hcarries
  refine h.connected rfl (by simp [hphase]) ⟨by simp, by simp⟩ ?_ (by simp) (hcarries.foreignWrite bytes)
  intro sent' hsent
  obtain rfl : sent = sent' := by simpa [hphase] using hsent
  exact ⟨bytes, Or.inl rfl⟩

theorem Holds.foreignLeaves (h : Holds E service s) {c : ι} {sent : List UInt8}
    (hphase : s.clients c = .foreign sent) : Holds E service (s.leave c (.left sent)) := by
  refine h.leave (by simp [hphase]) (by simp) (by simp) ?_ (fun frame => ⟨by simp, by simp⟩) ?_
  · intro sent' hsent
    obtain rfl : sent = sent' := by simpa [hphase] using hsent
    exact ⟨[], Or.inr (by rw [List.append_nil])⟩
  · intro l hl hclient
    have hcarries := h.carries l hl
    rw [hclient, hphase] at hcarries
    exact hcarries.foreignLeave

theorem Holds.move (h : Holds E service s) (hmove : Move E s t) : Holds E service t := by
  cases hmove with
  | start hphase hprogram hname hframe => exact h.start hphase hprogram hframe
  | connect hphase hprogram hlink hserver => exact h.connect hphase hprogram hlink hserver
  | clientWrite hlink hphase hcount => exact h.clientWrites hlink hphase
  | clientRead hlink hphase hwants hwanted hcount hsize => exact h.clientReads hlink hphase hsize
  | acknowledge hlink hphase => exact h.acknowledges hlink hphase
  | foreignConnect hphase hprogram hlink hserver => exact h.foreignConnect hphase hprogram hlink hserver
  | foreignWrite hlink hphase => exact h.foreignWrites hlink hphase _
  | foreignRead hlink hphase => exact h.foreignReads hlink hphase
  | foreignLeave hphase => exact h.foreignLeaves hphase
  | accept hserver hlink hopen => exact h.accept hserver hlink
  | serverRead hserver hlink hwants hwanted hcount hsize =>
    exact h.serverRead hserver hlink hwants hwanted hsize
  | handle hserver hlink hsid hhandler hreply => exact h.handle hserver hlink hsid hhandler hreply
  | serverWrite hserver hlink hopen hcount => exact h.serverWrite hserver hlink
  | readAck hserver hlink hack => exact h.readAck hserver hlink hack

theorem Holds.failure (h : Holds E service s) (hfailure : Failure E s t) : Holds E service t := by
  cases hfailure with
  | refuseName hphase hprogram hname => exact h.refused (Or.inl hphase) _
  | refuseFrame hphase hprogram hname hframe => exact h.refused (Or.inl hphase) _
  | notConnected hphase herror => exact h.refused (Or.inr hphase) _
  | stopWriting hphase herror => exact h.giveUp (by simp [hphase, ClientPhase.Exchanging]) _
  | stopReading hphase herror => exact h.giveUp (by simp [hphase, ClientPhase.Exchanging]) _
  | stopAcking hphase herror => exact h.giveUp (by simp [hphase, ClientPhase.Exchanging]) _
  | clientTooLarge hlink hphase hwants hwanted hcount hsize =>
    exact h.giveUp (by simp [hphase, ClientPhase.Exchanging]) _
  | keepListening hserver => exact h
  | stopListening hserver herror hends => exact h.finish _
  | stopServing hserver hlink herror => exact h.finish _
  | serverTooLarge hserver hlink hwants hwanted hcount hsize => exact h.finish _
  | unauthorized hserver hlink hsid => exact h.finish _
  | handlerFails hserver hlink hsid hhandler => exact h.callFails hserver hlink hsid hhandler _
  | replyRefused hserver hlink hsid hhandler hreply => exact h.callFails hserver hlink hsid hhandler _
  | wrongAck hserver hlink hack hbyte => exact h.finish _

theorem Reachable.holds (h : Reachable E service s) : Holds E service s := by
  induction h with
  | refl => exact holds_initial E service
  | tail _ hstep ih =>
    rcases hstep with hmove | hfailure
    · exact ih.move hmove
    · exact ih.failure hfailure

end Runs

end LocalSearch.Transport
