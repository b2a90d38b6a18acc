import LocalSearch.Transport.Delivery
import LocalSearch.Lib.Inevitable

/-!
# The end of an exchange

An exchange that neither side gives up is finished, whatever the sizes of the
pieces and whichever side goes on first: until it is, one of the two can do
something, and whatever changes anything leaves less to do.
-/
namespace LocalSearch.Transport

set_option autoImplicit false

open Lib

variable {σ ε ι : Type} {E : Endpoint σ ε ι} {service : σ} {s : Net σ ι}

/-- A move of one of the two parties that changes something. -/
def Effective [DecidableEq ι] (E : Endpoint σ ε ι) (c : ι) (s t : Net σ ι) : Prop :=
  Move E s t ∧ ¬ (t.server = s.server ∧ t.link = s.link ∧ t.clients c = s.clients c)

/-- The client has the reply and the server knows it. -/
def Finished (c : ι) (encoded : List UInt8) (s : Net σ ι) : Prop :=
  c ∈ s.served ∧ ∃ frame, s.clients c = .returned (.ok frame) ∧ ⟨c, encoded, .ok frame⟩ ∈ s.calls

/-- The exchange of this client is under way. -/
structure Exchanging (E : Endpoint σ ε ι) (service : σ) (c : ι) (encoded : List UInt8)
    (s : Net σ ι) : Prop where
  holds : Holds E service s
  linked : ∃ l, s.link = some l ∧ l.client = c
  program : ∃ pipeName, E.program c = .roundTrip pipeName encoded
  going : ∀ error, s.clients c ≠ .returned (.error error)

/-- Bytes to write count twice, bytes on their way once, and the reply as much as
it may become. -/
def ClientPhase.work : ClientPhase → Nat
  | .writing rest => 2 * rest.length + 2
  | .reading _ | .acking _ => 2
  | _ => 0

def ServerPhase.work : ServerPhase → Nat
  | .listening => 2 * (prefixBytes + maxTransportFrameBytes) + 3
  | .reading _ => 2 * (prefixBytes + maxTransportFrameBytes) + 2
  | .verifying _ => 2 * (prefixBytes + maxTransportFrameBytes) + 1
  | .writing rest => 2 * rest.length
  | .acknowledging | .stopped => 0

def Link.work (l : Link ι) : Nat := l.toServer.length + l.toClient.length

def work (s : Net σ ι) : Nat :=
  s.link.elim 0 fun l => (s.clients l.client).work + s.server.work + l.work

theorem work_eq {l : Link ι} (hl : s.link = some l) :
    work s = (s.clients l.client).work + s.server.work + l.work := by
  rw [work, hl]
  rfl

theorem work_clientAfterWrite (rest : List UInt8) :
    (clientAfterWrite rest).work = 2 * rest.length + 2 := by
  unfold clientAfterWrite
  split
  · next hnil => rw [hnil]; rfl
  · rfl

theorem work_clientAfterRead (got : List UInt8) : (clientAfterRead got).work = 2 := by
  unfold clientAfterRead
  split <;> rfl

theorem work_serverAfterWrite (rest : List UInt8) :
    (serverAfterWrite rest).work = 2 * rest.length := by
  unfold serverAfterWrite
  split
  · next hnil => rw [hnil]; rfl
  · rfl

theorem work_serverAfterRead_le (got : List UInt8) :
    (serverAfterRead got).work ≤ 2 * (prefixBytes + maxTransportFrameBytes) + 2 := by
  unfold serverAfterRead
  split
  · exact Nat.le_succ _
  · exact Nat.le_refl _

/-- The parts of an exchange under way. -/
theorem Exchanging.carries {c : ι} {encoded : List UInt8} (h : Exchanging E service c encoded s)
    {l : Link ι} (hl : s.link = some l) :
    l.client = c ∧ Talks (s.clients l.client) s.server s.calls l encoded ∧
      (s.server.Before → ∀ call ∈ s.calls, call.client ≠ l.client) := by
  obtain ⟨l', hl', hclient⟩ := h.linked
  obtain rfl := Option.some.inj (hl'.symm.trans hl)
  obtain ⟨pipeName, hprogram⟩ := h.program
  have hcarries := h.holds.carries l' hl'
  rw [← hclient] at hprogram
  exact ⟨hclient, hcarries.talks pipeName encoded hprogram, hcarries.uncalled⟩

/-- A client that has not returned is in the middle of its call, with its handle
open. -/
theorem Exchanging.phase {c : ι} {encoded : List UInt8} (h : Exchanging E service c encoded s)
    {l : Link ι} (hl : s.link = some l) :
    (∃ frame, s.clients l.client = .returned (.ok frame)) ∨
      (l.closed = false ∧ (s.clients l.client).Exchanging) := by
  obtain ⟨rfl, htalks, -⟩ := h.carries hl
  have hclosed := htalks.closed
  have hwrote := htalks.wrote
  have hgoing := h.going
  cases hphase : s.clients l.client with
  | returned result =>
    cases result with
    | error error => exact absurd hphase (hgoing error)
    | ok frame => exact Or.inl ⟨frame, rfl⟩
  | idle =>
    rw [hphase] at hwrote
    exact False.elim hwrote
  | connecting =>
    rw [hphase] at hwrote
    exact False.elim hwrote
  | foreign sent =>
    rw [hphase] at hwrote
    exact False.elim hwrote
  | left sent =>
    rw [hphase] at hwrote
    exact False.elim hwrote
  | _ =>
    right
    rw [hphase] at hclosed
    exact ⟨Bool.eq_false_iff.mpr (by simp [hclosed]), trivial⟩

/-- A client that has returned waits for nothing but the server's last read. -/
theorem Talks.returned {l : Link ι} {encoded frame : List UInt8} {server : ServerPhase}
    {calls : List (Call ι)} (h : Talks (.returned (.ok frame)) server calls l encoded) :
    server = .acknowledging ∧ l.toServer = [responseAck] := by
  obtain ⟨-, hwrote, ⟨heard, ⟨hheard, hframe⟩, hreplied⟩, -⟩ := h
  obtain rfl := hheard
  have hwrote : server.taken encoded ++ l.toServer = encoded ++ [responseAck] := hwrote
  have hnone : heard ++ l.toClient = [] → False := fun hnil =>
    hframe.ne_nil (List.append_eq_nil_iff.mp hnil).1
  cases server with
  | writing rest =>
    obtain ⟨hne, reply, -, hreply, hmore⟩ := hreplied
    rw [List.append_assoc] at hmore
    have hsame := hframe.eq_of_isPrefix hreply ⟨_, hmore⟩
    rw [← hsame] at hmore
    have hnil : l.toClient ++ rest = [] := List.append_right_eq_self.mp hmore
    exact absurd (List.append_eq_nil_iff.mp hnil).2 hne
  | acknowledging => exact ⟨rfl, List.append_cancel_left hwrote⟩
  | stopped => exact False.elim hreplied
  | _ => exact (hnone hreplied).elim

/-- The server reads the acknowledgement of a client that has the reply. -/
theorem Exchanging.after_readAck {c : ι} {encoded more : List UInt8}
    (h : Exchanging E service c encoded s) {l : Link ι} (hl : s.link = some l) (hserver : s.server = .acknowledging)
    (hack : l.toServer = responseAck :: more) :
    Finished c encoded { s.finish (.ok ()) with served := s.served ++ [l.client] } := by
  obtain ⟨rfl, -, -⟩ := h.carries hl
  obtain ⟨pipeName, hprogram⟩ := h.program
  have hcarries := h.holds.carries l hl
  rw [hserver] at hcarries
  obtain ⟨frame, hframe⟩ := hcarries.acked hack hprogram
  obtain ⟨name, bytes, hsame, hcall⟩ := h.holds.results l.client frame (Or.inr hframe)
  rw [hprogram] at hsame
  cases hsame
  exact ⟨List.mem_append_right _ (List.mem_singleton.mpr rfl), frame, hframe, hcall⟩

/-- Within a frame the next byte is not too much. -/
theorem next_byte {got more : List UInt8} {byte : UInt8} {rest : List UInt8}
    (hframed : Framed (got ++ (byte :: rest) ++ more)) (hwants : ∃ wanted, readNext got = .wants wanted) :
    ∃ wanted, readNext got = .wants wanted ∧ 1 ≤ wanted ∧
      readNext (got ++ (byte :: rest).take 1) ≠ .tooLarge := by
  obtain ⟨wanted, hwanted⟩ := hwants
  have hfirst : Framed (got ++ (byte :: rest ++ more)) := by rwa [← List.append_assoc]
  have hsecond : Framed (got ++ [byte] ++ (rest ++ more)) := by
    rw [List.append_assoc]
    exact hfirst
  refine ⟨wanted, hwanted, ?_, ?_⟩
  · rcases readNext_of_prefix hfirst with ⟨hnil, -⟩ | ⟨count, hcount, hpos, -⟩
    · cases hnil
    · rw [hwanted] at hcount
      cases hcount
      exact hpos
  · show readNext (got ++ [byte]) ≠ .tooLarge
    rcases readNext_of_prefix hsecond with ⟨-, hwhole⟩ | ⟨count, hcount, -⟩
    · rw [hwhole]
      simp
    · rw [hcount]
      simp

section Moves

variable [DecidableEq ι] {t : Net σ ι} {c : ι} {encoded : List UInt8}

/-- The connected client changes. -/
theorem effective_of_client {l l' : Link ι} {phase : ClientPhase} (hl : s.link = some l)
    (hne : l'.toServer ≠ l.toServer ∨ l'.toClient ≠ l.toClient)
    (hmove : Move E s { s.goto l.client phase with link := some l' }) :
    Effective E l.client s { s.goto l.client phase with link := some l' } := by
  refine ⟨hmove, fun hsame => ?_⟩
  have hlink : some l' = some l := hsame.2.1.trans hl
  obtain rfl := Option.some.inj hlink
  rcases hne with hne | hne <;> exact hne rfl

/-- A move that leaves the server elsewhere. -/
theorem effective_of_server (hmove : Move E s t) (hne : t.server ≠ s.server) : Effective E c s t :=
  ⟨hmove, fun hsame => hne hsame.1⟩

/-- The server can read what is on its way to it. -/
theorem Exchanging.server_reads (h : Exchanging E service c encoded s) {l : Link ι}
    (hl : s.link = some l) (hphase : (s.clients l.client).Exchanging) {got : List UInt8}
    (hserver : s.server = .reading got) (hqueue : l.toServer ≠ []) : ∃ t, Effective E l.client s t := by
  obtain ⟨rfl, htalks, -⟩ := h.carries hl
  have hwrote := htalks.wrote
  rw [hserver] at hwrote
  obtain ⟨more, hmore⟩ : got ++ l.toServer <+: encoded := hphase.wrote hwrote
  obtain ⟨byte, rest, hbytes⟩ := List.exists_cons_of_ne_nil hqueue
  rw [hbytes] at hmore
  obtain ⟨wanted, hwanted, hpos, hsize⟩ :=
    next_byte (hmore ▸ htalks.framed) (h.holds.within got hserver).2
  have hmove := @Move.serverRead _ _ _ _ E s l got wanted 1 hserver hl hwanted hpos
    (by rw [hbytes]; simp) (by rw [hbytes]; exact hsize)
  refine ⟨_, hmove, fun hsame => ?_⟩
  have hlink : some { l with toServer := l.toServer.drop 1 } = some l := hsame.2.1.trans hl
  have hdrop : l.toServer.drop 1 = l.toServer := congrArg Link.toServer (Option.some.inj hlink)
  have hlength := congrArg List.length hdrop
  rw [hbytes, List.length_drop, List.length_cons] at hlength
  omega

/-- When nothing is on its way and the request is not complete, the client has more
to write. -/
theorem Exchanging.client_writes (h : Exchanging E service c encoded s) {l : Link ι}
    (hl : s.link = some l) (hphase : (s.clients l.client).Exchanging) {got : List UInt8}
    (hserver : s.server = .reading got) (hqueue : l.toServer = []) : ∃ t, Effective E l.client s t := by
  obtain ⟨rfl, htalks, -⟩ := h.carries hl
  have hwrote := htalks.wrote
  rw [hserver, hqueue] at hwrote
  have hpart : got ++ [] ≠ encoded := by
    intro hall
    rw [List.append_nil] at hall
    obtain ⟨-, wanted, hwanted⟩ := h.holds.within got hserver
    rw [hall, readNext_framed htalks.framed] at hwanted
    cases hwanted
  cases hclient : s.clients l.client with
  | writing unsent =>
    rw [hclient] at hwrote
    have hpos : 0 < unsent.length := List.length_pos_iff.mpr hwrote.1
    have hmove := @Move.clientWrite _ _ _ _ E s l unsent 1 hl hclient hpos
    refine ⟨_, effective_of_client hl (Or.inl fun hsame => ?_) hmove⟩
    have hlength := congrArg List.length hsame
    change (l.toServer ++ unsent.take 1).length = l.toServer.length at hlength
    rw [List.length_append, List.length_take] at hlength
    omega
  | reading got' =>
    rw [hclient] at hwrote
    exact absurd hwrote hpart
  | acking frame =>
    rw [hclient] at hwrote
    exact absurd hwrote hpart
  | _ =>
    rw [hclient] at hphase
    exact False.elim hphase

/-- The frame the server has read is the request, and the handler answers it. -/
theorem Exchanging.handler_answers (h : Exchanging E service c encoded s) {l : Link ι}
    (hl : s.link = some l) (hsid : E.sid l.client = E.logonSid)
    (hhandler : ∀ before, ∃ around after reply,
      E.handler around before encoded = (after, .ok reply) ∧ Framed reply)
    {frame : List UInt8} (hserver : s.server = .verifying frame) : ∃ t, Effective E l.client s t := by
  obtain ⟨rfl, -, -⟩ := h.carries hl
  obtain ⟨pipeName, hprogram⟩ := h.program
  have hcarries := h.holds.carries l hl
  rw [hserver] at hcarries
  have hasked := hcarries.asked (h.holds.whole frame hserver)
  rw [hprogram] at hasked
  obtain rfl : frame = encoded := hasked
  obtain ⟨around, after, reply, hcall, hreply⟩ := hhandler s.service
  have hmove := Move.handle hserver hl hsid hcall (validateEncodedFrame_eq_ok.mpr hreply)
  refine ⟨_, effective_of_server hmove ?_⟩
  show ServerPhase.writing reply ≠ s.server
  rw [hserver]
  simp

theorem Exchanging.server_writes (h : Exchanging E service c encoded s) {l : Link ι}
    (hl : s.link = some l) (hopen : l.closed = false) {rest : List UInt8}
    (hserver : s.server = .writing rest) : ∃ t, Effective E l.client s t := by
  obtain ⟨rfl, htalks, -⟩ := h.carries hl
  obtain ⟨heard, -, hreplied⟩ := htalks.replied
  rw [hserver] at hreplied
  have hpos : 0 < rest.length := List.length_pos_iff.mpr hreplied.1
  have hmove := @Move.serverWrite _ _ _ _ E s l rest 1 hserver hl hopen hpos
  refine ⟨_, hmove, fun hsame => ?_⟩
  have hlink : some { l with toClient := l.toClient ++ rest.take 1 } = some l := hsame.2.1.trans hl
  have hqueue : l.toClient ++ rest.take 1 = l.toClient :=
    congrArg Link.toClient (Option.some.inj hlink)
  have hlength := congrArg List.length hqueue
  rw [List.length_append, List.length_take] at hlength
  omega

/-- When the whole reply is written the client reads it and acknowledges it. -/
theorem Exchanging.client_takes_reply (h : Exchanging E service c encoded s) {l : Link ι}
    (hl : s.link = some l) (hphase : (s.clients l.client).Exchanging)
    (hserver : s.server = .acknowledging) : ∃ t, Effective E l.client s t := by
  obtain ⟨rfl, htalks, -⟩ := h.carries hl
  obtain ⟨-, hwrote, ⟨heard, hheard, hreplied⟩, -⟩ := htalks
  rw [hserver] at hwrote hreplied
  obtain ⟨reply, -, hreply, hdelivered⟩ := hreplied
  cases hclient : s.clients l.client with
  | writing unsent =>
    -- The whole request has been read, so nothing can be left to write.
    rw [hclient] at hwrote
    have hlength := congrArg List.length hwrote.2
    have hpos : 0 < unsent.length := List.length_pos_iff.mpr hwrote.1
    rw [List.length_append, List.length_append] at hlength
    change encoded.length + l.toServer.length + unsent.length = encoded.length at hlength
    omega
  | reading got =>
    rw [hclient] at hheard
    obtain ⟨rfl, hwants⟩ := hheard
    cases hqueue : l.toClient with
    | nil =>
      rw [hqueue, List.append_nil] at hdelivered
      obtain ⟨wanted, hwanted⟩ := hwants
      rw [hdelivered, readNext_framed hreply] at hwanted
      cases hwanted
    | cons byte rest =>
      rw [hqueue] at hdelivered
      have hall : Framed (heard ++ (byte :: rest) ++ []) := by
        rw [List.append_nil, hdelivered]
        exact hreply
      obtain ⟨wanted, hwanted, hpos, hsize⟩ := next_byte hall hwants
      have hmove := @Move.clientRead _ _ _ _ E s l heard wanted 1 hl hclient hwanted hpos
        (by rw [hqueue]; simp) (by rw [hqueue]; exact hsize)
      refine ⟨_, effective_of_client hl (Or.inr fun hsame => ?_) hmove⟩
      have hlength := congrArg List.length hsame
      change (l.toClient.drop 1).length = l.toClient.length at hlength
      rw [hqueue, List.length_drop, List.length_cons] at hlength
      omega
  | acking frame =>
    have hmove := @Move.acknowledge _ _ _ _ E s l frame hl hclient
    refine ⟨_, effective_of_client hl (Or.inl fun hsame => ?_) hmove⟩
    have hlength := congrArg List.length hsame
    change (l.toServer ++ [responseAck]).length = l.toServer.length at hlength
    rw [List.length_append, List.length_singleton] at hlength
    omega
  | _ =>
    rw [hclient] at hphase
    exact False.elim hphase

/-- The exchange never gets stuck: one of the parties can always go on. -/
theorem Exchanging.possible (h : Exchanging E service c encoded s) (hsid : E.sid c = E.logonSid)
    (hhandler : ∀ before, ∃ around after reply,
      E.handler around before encoded = (after, .ok reply) ∧ Framed reply) :
    ∃ t, Effective E c s t := by
  obtain ⟨l, hl, rfl⟩ := h.linked
  have htalks := (h.carries hl).2.1
  rcases h.phase hl with ⟨frame, hframe⟩ | ⟨hopen, hphase⟩
  · -- A returned client leaves the acknowledgement to be read.
    rw [hframe] at htalks
    obtain ⟨hserver, hack⟩ := htalks.returned
    refine ⟨_, effective_of_server (Move.readAck hserver hl hack) ?_⟩
    show ServerPhase.listening ≠ s.server
    rw [hserver]
    simp
  · cases hserver : s.server with
    | listening =>
      refine ⟨_, effective_of_server (Move.accept hserver hl hopen) ?_⟩
      show ServerPhase.reading [] ≠ s.server
      rw [hserver]
      simp
    | reading got =>
      by_cases hqueue : l.toServer = []
      · exact h.client_writes hl hphase hserver hqueue
      · exact h.server_reads hl hphase hserver hqueue
    | verifying frame => exact h.handler_answers hl hsid hhandler hserver
    | writing rest => exact h.server_writes hl hopen hserver
    | acknowledging => exact h.client_takes_reply hl hphase hserver
    | stopped =>
      obtain ⟨heard, -, hreplied⟩ := htalks.replied
      rw [hserver] at hreplied
      exact False.elim hreplied

/-- A move on the client's side of the exchange. -/
theorem Exchanging.client_moves (h : Exchanging E service c encoded s) {l l' : Link ι}
    {phase : ClientPhase} (hl : s.link = some l)
    (hmove : Move E s { s.goto l.client phase with link := some l' })
    (hsame : l'.client = l.client) (hgoing : ∀ error, phase ≠ .returned (.error error))
    (hless : phase.work + l'.work < (s.clients l.client).work + l.work) :
    Exchanging E service c encoded { s.goto l.client phase with link := some l' } ∧
      work { s.goto l.client phase with link := some l' } < work s := by
  obtain ⟨rfl, -, -⟩ := h.carries hl
  have hphase : Function.update s.clients l.client phase l.client = phase := Function.update_self ..
  refine ⟨⟨h.holds.move hmove, ⟨l', rfl, hsame⟩, h.program, ?_⟩, ?_⟩
  · intro error herror
    change Function.update s.clients l.client phase l.client = _ at herror
    rw [hphase] at herror
    exact hgoing error herror
  · rw [work_eq hl, @work_eq _ _ { s.goto l.client phase with link := some l' } l' rfl]
    show (Function.update s.clients l.client phase l'.client).work + s.server.work + l'.work < _
    rw [hsame, hphase]
    omega

/-- A move on the server's side of it. -/
theorem Exchanging.server_moves (h : Exchanging E service c encoded s) {l l' : Link ι}
    (hl : s.link = some l) (hmove : Move E s t) (hlink : t.link = some l')
    (hsame : l'.client = l.client) (hclients : t.clients = s.clients)
    (hless : t.server.work + l'.work < s.server.work + l.work) :
    Exchanging E service c encoded t ∧ work t < work s := by
  obtain ⟨rfl, -, -⟩ := h.carries hl
  refine ⟨⟨h.holds.move hmove, ⟨l', hlink, hsame⟩, h.program, ?_⟩, ?_⟩
  · rw [hclients]
    exact h.going
  · rw [work_eq hl, work_eq hlink, hclients, hsame]
    omega

/-- A client that holds no instance does not touch the exchange. -/
theorem not_effective_of_apart {l : Link ι} {d : ι} {phase : ClientPhase}
    (hd : l.client ≠ d) {link : Option (Link ι)} (hlink : link = s.link) :
    ¬ Effective E l.client s { s.goto d phase with link := link } := by
  intro heffective
  refine heffective.2 ⟨rfl, hlink, ?_⟩
  show Function.update s.clients d phase l.client = s.clients l.client
  rw [Function.update_of_ne hd]

/-- A piece that changes something is not empty, and leaves less to write. -/
theorem Exchanging.after_clientWrite (h : Exchanging E service c encoded s) {l : Link ι}
    {rest : List UInt8} {count : Nat} (hl : s.link = some l)
    (hphase : s.clients l.client = .writing rest) (hcount : count ≤ rest.length)
    (hstep : Effective E l.client s { s.goto l.client (clientAfterWrite (rest.drop count)) with
      link := some { l with toServer := l.toServer ++ rest.take count } }) :
    Exchanging E service c encoded { s.goto l.client (clientAfterWrite (rest.drop count)) with
      link := some { l with toServer := l.toServer ++ rest.take count } } ∧
    work { s.goto l.client (clientAfterWrite (rest.drop count)) with
      link := some { l with toServer := l.toServer ++ rest.take count } } < work s := by
  have hwrote := (h.carries hl).2.1.wrote
  rw [hphase] at hwrote
  have hpos : 0 < count := by
    by_contra hzero
    obtain rfl : count = 0 := by omega
    refine hstep.2 ⟨rfl, ?_, ?_⟩
    · rw [hl]
      show some { l with toServer := l.toServer ++ [] } = some l
      rw [List.append_nil]
    · show Function.update s.clients l.client (clientAfterWrite rest) l.client = s.clients l.client
      rw [Function.update_self, hphase, clientAfterWrite, if_neg hwrote.1]
  refine h.client_moves hl hstep.1 rfl ?_ ?_
  · intro error
    unfold clientAfterWrite
    split <;> simp
  · rw [work_clientAfterWrite, hphase]
    simp only [Link.work, ClientPhase.work, List.length_append, List.length_take, List.length_drop]
    omega

theorem Exchanging.after_clientRead (h : Exchanging E service c encoded s) {l : Link ι}
    {got : List UInt8} {wanted count : Nat} (hl : s.link = some l)
    (hphase : s.clients l.client = .reading got) (hwants : readNext got = .wants wanted)
    (hcount : count ≤ l.toClient.length)
    (hstep : Effective E l.client s { s.goto l.client (clientAfterRead (got ++ l.toClient.take count))
      with link := some { l with toClient := l.toClient.drop count } }) :
    Exchanging E service c encoded
      { s.goto l.client (clientAfterRead (got ++ l.toClient.take count)) with
        link := some { l with toClient := l.toClient.drop count } } ∧
    work { s.goto l.client (clientAfterRead (got ++ l.toClient.take count)) with
      link := some { l with toClient := l.toClient.drop count } } < work s := by
  have hpos : 0 < count := by
    by_contra hzero
    obtain rfl : count = 0 := by omega
    refine hstep.2 ⟨rfl, hl.symm, ?_⟩
    show Function.update s.clients l.client (clientAfterRead (got ++ [])) l.client =
      s.clients l.client
    rw [Function.update_self, hphase, List.append_nil, clientAfterRead, hwants, if_neg (by simp)]
  refine h.client_moves hl hstep.1 rfl ?_ ?_
  · intro error
    unfold clientAfterRead
    split <;> simp
  · rw [work_clientAfterRead, hphase]
    simp only [Link.work, ClientPhase.work, List.length_drop]
    omega

theorem Exchanging.after_serverRead (h : Exchanging E service c encoded s) {l : Link ι}
    {got : List UInt8} {wanted count : Nat} (hl : s.link = some l) (hserver : s.server = .reading got)
    (hwants : readNext got = .wants wanted) (hcount : count ≤ l.toServer.length)
    (hstep : Effective E l.client s { s with
      server := serverAfterRead (got ++ l.toServer.take count)
      link := some { l with toServer := l.toServer.drop count } }) :
    Exchanging E service c encoded { s with
      server := serverAfterRead (got ++ l.toServer.take count)
      link := some { l with toServer := l.toServer.drop count } } ∧
    work { s with
      server := serverAfterRead (got ++ l.toServer.take count)
      link := some { l with toServer := l.toServer.drop count } } < work s := by
  have hpos : 0 < count := by
    by_contra hzero
    obtain rfl : count = 0 := by omega
    refine hstep.2 ⟨?_, hl.symm, rfl⟩
    show serverAfterRead (got ++ []) = s.server
    rw [hserver, List.append_nil, serverAfterRead, hwants, if_neg (by simp)]
  refine h.server_moves hl hstep.1 rfl rfl rfl ?_
  have hafter := work_serverAfterRead_le (got ++ l.toServer.take count)
  have hbefore : s.server.work = 2 * (prefixBytes + maxTransportFrameBytes) + 2 := by
    rw [hserver]
    rfl
  show (serverAfterRead (got ++ l.toServer.take count)).work +
    ((l.toServer.drop count).length + l.toClient.length) <
      s.server.work + (l.toServer.length + l.toClient.length)
  rw [List.length_drop]
  omega

theorem Exchanging.after_serverWrite (h : Exchanging E service c encoded s) {l : Link ι}
    {rest : List UInt8} {count : Nat} (hl : s.link = some l) (hserver : s.server = .writing rest)
    (hcount : count ≤ rest.length)
    (hstep : Effective E l.client s { s with
      server := serverAfterWrite (rest.drop count)
      link := some { l with toClient := l.toClient ++ rest.take count } }) :
    Exchanging E service c encoded { s with
      server := serverAfterWrite (rest.drop count)
      link := some { l with toClient := l.toClient ++ rest.take count } } ∧
    work { s with
      server := serverAfterWrite (rest.drop count)
      link := some { l with toClient := l.toClient ++ rest.take count } } < work s := by
  obtain ⟨heard, -, hreplied⟩ := (h.carries hl).2.1.replied
  rw [hserver] at hreplied
  have hpos : 0 < count := by
    by_contra hzero
    obtain rfl : count = 0 := by omega
    refine hstep.2 ⟨?_, ?_, rfl⟩
    · show serverAfterWrite rest = s.server
      rw [hserver, serverAfterWrite, if_neg hreplied.1]
    · rw [hl]
      show some { l with toClient := l.toClient ++ [] } = some l
      rw [List.append_nil]
  refine h.server_moves hl hstep.1 rfl rfl rfl ?_
  rw [work_serverAfterWrite, hserver]
  simp only [Link.work, ServerPhase.work, List.length_append, List.length_take, List.length_drop]
  omega

/-- Every effective move ends the exchange well or leaves less to do. -/
theorem Exchanging.advances (h : Exchanging E service c encoded s) (hstep : Effective E c s t) :
    Finished c encoded t ∨ (Exchanging E service c encoded t ∧ work t < work s) := by
  obtain ⟨l, hl, hclient⟩ := h.linked
  subst hclient
  have htalks := (h.carries hl).2.1
  have hmove := hstep.1
  cases hmove with
  | start hphase hprogram hname hframe =>
    exact absurd hstep (not_effective_of_apart ((h.holds.fresh _ (Or.inl hphase)).1 l hl) rfl)
  | connect hphase hprogram hlink hserver =>
    rw [hl] at hlink
    cases hlink
  | foreignConnect hphase hprogram hlink hserver =>
    rw [hl] at hlink
    cases hlink
  | @clientWrite l' rest count hlink hphase hcount =>
    obtain rfl := Option.some.inj (hl.symm.trans hlink)
    exact Or.inr (h.after_clientWrite hl hphase hcount hstep)
  | @clientRead l' got wanted count hlink hphase hwants hwanted hcount hsize =>
    obtain rfl := Option.some.inj (hl.symm.trans hlink)
    exact Or.inr (h.after_clientRead hl hphase hwants hcount hstep)
  | @acknowledge l' frame hlink hphase =>
    obtain rfl := Option.some.inj (hl.symm.trans hlink)
    right
    refine h.client_moves hl hstep.1 rfl (by simp) ?_
    rw [hphase]
    simp only [Link.work, ClientPhase.work, List.length_append, List.length_singleton]
    omega
  | foreignWrite hlink hphase =>
    obtain rfl := Option.some.inj (hl.symm.trans hlink)
    rw [hphase] at htalks
    exact False.elim htalks.wrote
  | foreignRead hlink hphase =>
    obtain rfl := Option.some.inj (hl.symm.trans hlink)
    rw [hphase] at htalks
    exact False.elim htalks.wrote
  | @foreignLeave d sent hphase =>
    have hapart : l.client ≠ d := by
      intro hsame
      rw [hsame, hphase] at htalks
      exact False.elim htalks.wrote
    have hlink : s.link.map (·.drop d) = s.link := by
      rw [hl]
      exact congrArg some (if_neg hapart)
    exact absurd hstep (not_effective_of_apart hapart hlink)
  | accept hserver hlink hopen =>
    right
    refine h.server_moves hl hstep.1 hl rfl rfl ?_
    rw [hserver]
    simp only [ServerPhase.work]
    omega
  | @serverRead l' got wanted count hserver hlink hwants hwanted hcount hsize =>
    obtain rfl := Option.some.inj (hl.symm.trans hlink)
    exact Or.inr (h.after_serverRead hl hserver hwants hcount hstep)
  | @handle l' frame reply around after hserver hlink hsid hhandler hreply =>
    right
    refine h.server_moves hl hstep.1 hl rfl rfl ?_
    have hlength := (validateEncodedFrame_eq_ok.mp hreply).length_le
    rw [hserver]
    simp only [ServerPhase.work]
    omega
  | @serverWrite l' rest count hserver hlink hopen hcount =>
    obtain rfl := Option.some.inj (hl.symm.trans hlink)
    exact Or.inr (h.after_serverWrite hl hserver hcount hstep)
  | @readAck l' more hserver hlink hack =>
    obtain rfl := Option.some.inj (hl.symm.trans hlink)
    exact Or.inl (h.after_readAck hl hserver hack)

theorem Exchanging.inevitable (h : Exchanging E service c encoded s) (hsid : E.sid c = E.logonSid)
    (hhandler : ∀ before, ∃ around after reply,
      E.handler around before encoded = (after, .ok reply) ∧ validateEncodedFrame reply = .ok ()) :
    Inevitable (Effective E c) (Finished c encoded) s := by
  have hreplies : ∀ before, ∃ around after reply,
      E.handler around before encoded = (after, .ok reply) ∧ Framed reply := by
    intro before
    obtain ⟨around, after, reply, hcall, hreply⟩ := hhandler before
    exact ⟨around, after, reply, hcall, validateEncodedFrame_eq_ok.mp hreply⟩
  exact @inevitable_of_measure _ _ _ (Exchanging E service c encoded) work
    (fun _ hs => hs.possible hsid hreplies) (fun _ _ hs hstep => hs.advances hstep) s h

/-- What is left when an exchange of the client has ended well. -/
def Net.answered (s : Net σ ι) (c : ι) (service : σ) (encoded reply : List UInt8) : Net σ ι where
  server := .listening
  service := service
  link := none
  clients := Function.update s.clients c (.returned (.ok reply))
  calls := s.calls ++ [⟨c, encoded, .ok reply⟩]
  served := s.served ++ [c]

/-- Reading as much as is wanted comes to the end of the frame. -/
theorem Framed.reads {P : List UInt8 → List UInt8 → Prop} {frame : List UInt8} (hframed : Framed frame)
    (hlast : ∀ got rest, got ++ rest = frame → readNext got = .wants rest.length → P got rest)
    (hmore : ∀ got rest count more, got ++ rest = frame → readNext got = .wants count →
      count ≤ rest.length → readNext (got ++ rest.take count) = .wants more →
      P (got ++ rest.take count) (rest.drop count) → P got rest)
    {got rest : List UInt8} (hsplit : got ++ rest = frame) (hleft : rest ≠ []) : P got rest := by
  induction hn : rest.length using Nat.strong_induction_on generalizing got rest with
  | _ n ih =>
    rcases readNext_of_prefix (hsplit ▸ hframed) with ⟨hnil, -⟩ | ⟨count, hwants, hpos, hcount⟩
    · exact absurd hnil hleft
    · have hpieces : got ++ rest.take count ++ rest.drop count = frame := by
        rw [List.append_assoc, List.take_append_drop, hsplit]
      rcases readNext_of_prefix (hpieces ▸ hframed) with ⟨hnil, -⟩ | ⟨more, hwantsMore, hmorePos, hle⟩
      · have hall : count = rest.length := Nat.le_antisymm hcount (List.drop_eq_nil_iff.mp hnil)
        exact hlast got rest hsplit (hall ▸ hwants)
      · have hless : (rest.drop count).length < n := by
          rw [List.length_drop]
          omega
        have hne : rest.drop count ≠ [] := List.ne_nil_of_length_pos (by omega)
        exact hmore got rest count more hsplit hwants hcount hwantsMore (ih _ hless hpieces hne rfl)

/-- The server reads the frame that is on its way to it. -/
theorem server_reads_frame {frame : List UInt8} (hframed : Framed frame) {got rest : List UInt8}
    (hsplit : got ++ rest = frame) (hleft : rest ≠ []) {l : Link ι} (hserver : s.server = .reading got)
    (hlink : s.link = some l) (hqueue : l.toServer = rest) :
    Relation.ReflTransGen (Move E) s
      { s with server := .verifying frame, link := some { l with toServer := [] } } := by
  refine @Framed.reads (fun got rest => ∀ (s : Net σ ι) (l : Link ι), s.server = .reading got →
    s.link = some l → l.toServer = rest → Relation.ReflTransGen (Move E) s
      { s with server := .verifying frame, link := some { l with toServer := [] } })
    frame hframed ?_ ?_ got rest hsplit hleft s l hserver hlink hqueue
  · rintro got rest hsplit hwants s l hserver hlink rfl
    have hwhole : readNext (got ++ l.toServer.take l.toServer.length) = .whole := by
      rw [List.take_length, hsplit]
      exact readNext_framed hframed
    have hmove := @Move.serverRead _ _ _ _ E s l got _ _ hserver hlink hwants le_rfl le_rfl
      (by rw [hwhole]; simp)
    rw [serverAfterRead, if_pos hwhole, List.take_length, hsplit, List.drop_length] at hmove
    exact .single hmove
  · rintro got rest count more - hwants hcount hmore ih s l hserver hlink rfl
    have hmove := @Move.serverRead _ _ _ _ E s l got count count hserver hlink hwants le_rfl hcount
      (by rw [hmore]; simp)
    rw [serverAfterRead, hmore, if_neg (by simp)] at hmove
    exact .head hmove (ih _ { l with toServer := l.toServer.drop count } rfl rfl rfl)

/-- The client reads the frame that is on its way to it. -/
theorem client_reads_frame {frame : List UInt8} (hframed : Framed frame) {got rest : List UInt8}
    (hsplit : got ++ rest = frame) (hleft : rest ≠ []) {l : Link ι} (hlink : s.link = some l)
    (hphase : s.clients l.client = .reading got) (hqueue : l.toClient = rest) :
    Relation.ReflTransGen (Move E) s
      { s.goto l.client (.acking frame) with link := some { l with toClient := [] } } := by
  refine @Framed.reads (fun got rest => ∀ (s : Net σ ι) (l : Link ι), s.link = some l →
    s.clients l.client = .reading got → l.toClient = rest → Relation.ReflTransGen (Move E) s
      { s.goto l.client (.acking frame) with link := some { l with toClient := [] } })
    frame hframed ?_ ?_ got rest hsplit hleft s l hlink hphase hqueue
  · rintro got rest hsplit hwants s l hlink hphase rfl
    have hwhole : readNext (got ++ l.toClient.take l.toClient.length) = .whole := by
      rw [List.take_length, hsplit]
      exact readNext_framed hframed
    have hmove := @Move.clientRead _ _ _ _ E s l got _ _ hlink hphase hwants le_rfl le_rfl
      (by rw [hwhole]; simp)
    rw [clientAfterRead, if_pos hwhole, List.take_length, hsplit, List.drop_length] at hmove
    exact .single hmove
  · rintro got rest count more - hwants hcount hmore ih s l hlink hphase rfl
    have hmove := @Move.clientRead _ _ _ _ E s l got count count hlink hphase hwants le_rfl hcount
      (by rw [hmore]; simp)
    rw [clientAfterRead, hmore, if_neg (by simp)] at hmove
    have hmoves := ih { s.goto l.client (.reading (got ++ l.toClient.take count)) with
      link := some { l with toClient := l.toClient.drop count } } { l with
        toClient := l.toClient.drop count } rfl (Function.update_self ..) rfl
    simp only [Net.goto, Function.update_idem] at hmove hmoves ⊢
    exact .head hmove hmoves

theorem Reachable.moves (h : Reachable E service s) (hmoves : Relation.ReflTransGen (Move E) s t) :
    Reachable E service t :=
  h.trans (Relation.ReflTransGen.mono (fun _ _ hmove => Or.inl hmove) _ _ hmoves)

/-- An authorized client that finds the server listening can be served at once. -/
theorem Reachable.answers (h : Reachable E service s) (hserver : s.server = .listening)
    (hlink : s.link = none) (hidle : s.clients c = .idle) {pipeName : String}
    (hprogram : E.program c = .roundTrip pipeName encoded) (hname : validatePipeName pipeName = .ok ())
    (hframe : validateEncodedFrame encoded = .ok ()) (hsid : E.sid c = E.logonSid) {around : ε}
    {after : σ} {reply : List UInt8} (hhandler : E.handler around s.service encoded = (after, .ok reply))
    (hreply : validateEncodedFrame reply = .ok ()) :
    Reachable E service (s.answered c after encoded reply) := by
  have hencoded := validateEncodedFrame_eq_ok.mp hframe
  have hreplied := validateEncodedFrame_eq_ok.mp hreply
  have hstart := h.move (.start hidle hprogram hname hframe)
  have hconnect := hstart.move (.connect (Function.update_self ..) hprogram hlink
    (by show s.server ≠ .stopped; rw [hserver]; simp))
  have haccept := hconnect.move (.accept hserver rfl rfl)
  -- the client writes its whole request
  have hwrite := haccept.move (.clientWrite rfl (Function.update_self ..) (Nat.le_refl encoded.length))
  rw [List.drop_length, List.take_length] at hwrite
  have hread := hwrite.moves
    (server_reads_frame hencoded (List.nil_append encoded) hencoded.ne_nil rfl rfl rfl)
  have hhandle := hread.move (.handle rfl rfl hsid hhandler hreply)
  -- the server writes its whole reply
  have hanswer := hhandle.move (.serverWrite rfl rfl rfl (Nat.le_refl reply.length))
  rw [List.drop_length, List.take_length] at hanswer
  have htake := hanswer.moves (client_reads_frame hreplied (List.nil_append reply) hreplied.ne_nil rfl
    (Function.update_self ..) rfl)
  have hack := htake.move (.acknowledge rfl (Function.update_self ..))
  have hdone := hack.move (.readAck rfl rfl rfl)
  simpa only [Net.answered, Net.goto, Net.record, Net.finish, afterServing, Function.update_idem]
    using hdone

/-- Any authorized client whose request the handler answers can be served. -/
theorem exists_finished {pipeName : String} (hprogram : E.program c = .roundTrip pipeName encoded)
    (hname : validatePipeName pipeName = .ok ()) (hframe : validateEncodedFrame encoded = .ok ())
    (hsid : E.sid c = E.logonSid)
    (hhandler : ∀ before, ∃ around after reply,
      E.handler around before encoded = (after, .ok reply) ∧ validateEncodedFrame reply = .ok ()) :
    ∃ s, Reachable E service s ∧ Finished c encoded s := by
  obtain ⟨around, after, reply, hcall, hreply⟩ := hhandler service
  have hreached := (Reachable.initial : Reachable E service _).answers rfl rfl rfl hprogram hname hframe
    hsid hcall hreply
  exact ⟨_, hreached, List.mem_append_right _ List.mem_cons_self, reply, Function.update_self ..,
    List.mem_append_right _ List.mem_cons_self⟩

/-- An exchange that neither side gives up is finished, whatever the sizes of the
pieces and whichever side goes on first. -/
theorem exchange_finishes (h : Reachable E service s) {l : Link ι} (hl : s.link = some l)
    {pipeName : String} (hprogram : E.program l.client = .roundTrip pipeName encoded)
    (hgoing : ∀ error, s.clients l.client ≠ .returned (.error error))
    (hsid : E.sid l.client = E.logonSid)
    (hhandler : ∀ before, ∃ around after reply,
      E.handler around before encoded = (after, .ok reply) ∧ validateEncodedFrame reply = .ok ()) :
    Inevitable (Effective E l.client) (Finished l.client encoded) s :=
  Exchanging.inevitable ⟨h.holds, ⟨l, hl, rfl⟩, ⟨pipeName, hprogram⟩, hgoing⟩ hsid hhandler

theorem exchange_finishes_echoing : ∃ s, Reachable echoing () s ∧
    Inevitable (Effective echoing ()) (Finished () [0, 0, 0, 0]) s := by
  obtain ⟨s, hreachable, hlink, hphase, -⟩ := echoing_linked
  refine ⟨s, hreachable, exchange_finishes hreachable hlink rfl (by simp [hphase]) rfl ?_⟩
  exact fun before => ⟨(), before, [0, 0, 0, 0], rfl, by decide⟩

end Moves

end LocalSearch.Transport
