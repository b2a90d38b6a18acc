import LocalSearch.Mcp.Conformance
import LocalSearch.Mcp.Listing

/-!
# The MCP process

The server over the standard streams with the adapter as the handler of its workers.
Whatever turns the reader and the workers take, a result written for a line is what the
tools answer to the request on that line.
-/
namespace LocalSearch.Mcp

set_option autoImplicit false

open Core Lib Graph Catalog AgentApi
open Agent (AgentService RequestSurroundings)

section Model

variable (fromSlice : List UInt8 → Option Value)

def Line.request : Line → Option McpRequest
  | .message bytes => (fromSlice bytes).bind McpRequest.fromValue
  | .eof | .oversized => none

/-- The request on the line at this position. -/
def Server.requestAt (s : Server) (k : Nat) : Option McpRequest :=
  s.lines[k]?.bind (Line.request fromSlice)

/-- The server, the adapter its workers share and the agent at the other end. -/
structure Process where
  server : Server
  adapter : McpAdapter
  agent : AgentService

/-- Beside the steps of the server: the agent goes on by itself, under the same grant. -/
inductive ProcessEvent where
  | agent (agent : AgentService)
  | read (line : Line)
  | answer (worker : Nat) (lost : Option InvokeError) (around : RequestSurroundings)
  | readToken (worker : Nat)
  | send (worker : Nat)
  | remove (worker : Nat)

namespace Process

def start (agent : AgentService) : Process := ⟨.initial, .new, agent⟩

/-- A step of the server in which no worker calls the adapter. -/
def move (p : Process) (event : Event) : Option Process :=
  (p.server.step fromSlice event).map fun server => { p with server }

variable [CaseMapping] [TextRules] [ScoreOrder]

/-- A call of the adapter stands where the agent answers it; its reply does not depend on
the number it took before. -/
def step (p : Process) : ProcessEvent → Option Process
  | .agent agent =>
      if agent.authorization = p.agent.authorization then some { p with agent } else none
  | .read line => p.move fromSlice (.read line)
  | .readToken k => p.move fromSlice (.readToken k)
  | .send k => p.move fromSlice (.send k)
  | .remove k => p.move fromSlice (.remove k)
  | .answer k lost around =>
      match p.server.requestAt fromSlice k with
      | none => none
      | some request =>
          let answer := p.adapter.handle (agentInvoker lost around) p.agent request
          (p.server.step fromSlice (.handle k answer.2.2.reply)).map fun server =>
            ⟨server, answer.1, answer.2.1⟩

def run (p : Process) (events : List ProcessEvent) : Option Process :=
  events.foldlM (step fromSlice) p

end Process

/-- The adapter replies so to the request, over some state of an agent with this grant. -/
def Produced [CaseMapping] [TextRules] [ScoreOrder] (granted : Finset Capability)
    (request : McpRequest) (reply : McpReply) : Prop :=
  ∃ (adapter : McpAdapter) (agent : AgentService) (lost : Option InvokeError)
    (around : RequestSurroundings), agent.authorization = granted ∧
      (adapter.handle (agentInvoker lost around) agent request).2.2.reply = reply

def Stage.reply : Stage → Option McpReply
  | .handled reply | .sending reply => some reply
  | .handling | .leaving => none

end Model

section Accounted

variable [CaseMapping] [TextRules] [ScoreOrder] {fromSlice : List UInt8 → Option Value}
  {granted : Finset Capability} {s s' : Server} {k : Nat}

/-- A worker at this stage is at the request on its line. -/
def Working (fromSlice : List UInt8 → Option Value) (granted : Finset Capability) (s : Server)
    (k : Nat) : Worker → Prop
  | .running id stage => ∃ request, s.requestAt fromSlice k = some request ∧ request.id = some id ∧
      ∀ reply, stage.reply = some reply → Produced granted request reply
  | .idle | .done => True

/-- An error, or what the adapter replies to the request on the line. -/
def Written (fromSlice : List UInt8 → Option Value) (granted : Finset Capability) (s : Server)
    (k : Nat) (response : McpResponse) : Prop :=
  (∃ error, response.reply = .error error) ∨
    ∃ request, s.requestAt fromSlice k = some request ∧ response.id = request.id ∧
      Produced granted request response.reply

structure Accounted (fromSlice : List UInt8 → Option Value) (granted : Finset Capability) (s : Server) :
    Prop where
  working : ∀ k, Working fromSlice granted s k (s.workers k)
  written : ∀ entry ∈ s.sent, Written fromSlice granted s entry.1 entry.2

theorem accounted_initial : Accounted fromSlice granted .initial where
  working _ := trivial
  written _ hentry := absurd hentry List.not_mem_nil

omit [CaseMapping] [TextRules] [ScoreOrder] in
theorem requestAt_line {request : McpRequest} (h : s.requestAt fromSlice k = some request)
    (line : Line) : ({ s with lines := s.lines ++ [line] } : Server).requestAt fromSlice k =
      some request := by
  obtain ⟨old, hold, hrequest⟩ := Option.bind_eq_some_iff.mp h
  obtain ⟨hk, -⟩ := List.getElem?_eq_some_iff.mp hold
  unfold Server.requestAt
  dsimp only
  rw [List.getElem?_append_left hk, hold]
  exact hrequest

namespace Accounted

theorem line (h : Accounted fromSlice granted s) (line : Line) :
    Accounted fromSlice granted { s with lines := s.lines ++ [line] } where
  working k := by
    have hk := h.working k
    show Working fromSlice granted _ k (s.workers k)
    cases hworker : s.workers k with
    | running id stage =>
      rw [hworker] at hk
      obtain ⟨request, hrequest, hid, hreply⟩ := hk
      exact ⟨request, requestAt_line hrequest line, hid, hreply⟩
    | idle => trivial
    | done => trivial
  written entry hentry := by
    rcases h.written entry hentry with herror | ⟨request, hrequest, hid, hreply⟩
    · exact Or.inl herror
    · exact Or.inr ⟨request, requestAt_line hrequest line, hid, hreply⟩

theorem response (h : Accounted fromSlice granted s) {response : McpResponse}
    (hresponse : Written fromSlice granted s k response) :
    Accounted fromSlice granted (s.sendResponse k response) where
  working := h.working
  written entry hentry := by
    rcases List.mem_append.mp hentry with hentry | hentry
    · exact h.written entry hentry
    · obtain rfl := List.mem_singleton.mp hentry
      exact hresponse

theorem goto (h : Accounted fromSlice granted s) {worker : Worker}
    (hworker : Working fromSlice granted s k worker) :
    Accounted fromSlice granted (s.goto k worker) where
  working j := by
    show Working fromSlice granted s j (Function.update s.workers k worker j)
    by_cases hj : j = k
    · rw [hj, Function.update_self]
      exact hworker
    · rw [Function.update_of_ne hj]
      exact h.working j
  written := h.written

/-- A worker goes on with no more than it holds. -/
theorem advance (h : Accounted fromSlice granted s) {id : McpId} {stage stage' : Stage}
    (hworker : s.workers k = .running id stage)
    (hstage : ∀ reply, stage'.reply = some reply → stage.reply = some reply) :
    Accounted fromSlice granted (s.goto k (.running id stage')) := by
  have hk := h.working k
  rw [hworker] at hk
  obtain ⟨request, hrequest, hid, hreply⟩ := hk
  exact h.goto ⟨request, hrequest, hid, fun reply hheld => hreply reply (hstage reply hheld)⟩

theorem accept (h : Accounted fromSlice granted s) {id : McpId} {request : McpRequest}
    (hrequest : s.requestAt fromSlice k = some request) (hid : request.id = some id) :
    Accounted fromSlice granted (s.accept k id) := by
  unfold Server.accept
  split
  · exact h.response (Or.inl ⟨_, rfl⟩)
  · split
    · exact h.response (Or.inl ⟨_, rfl⟩)
    · have hnew : Accounted fromSlice granted (s.goto k (.running id .handling)) :=
        h.goto ⟨request, hrequest, hid, fun reply hnone => by cases hnone⟩
      exact ⟨hnew.working, hnew.written⟩

theorem handleMessage (h : Accounted fromSlice granted s) {bytes : List UInt8}
    (hline : s.lines[k]? = some (.message bytes)) :
    Accounted fromSlice granted (s.handleMessage fromSlice k bytes) := by
  unfold Server.handleMessage
  cases hvalue : fromSlice bytes with
  | none => exact h.response (Or.inl ⟨_, rfl⟩)
  | some value =>
    dsimp only
    split
    · unfold Server.cancelRequest
      split
      · exact ⟨h.working, h.written⟩
      · exact h
    · cases hrequest : McpRequest.fromValue value with
      | none => exact h.response (Or.inl ⟨_, rfl⟩)
      | some request =>
        dsimp only
        cases hid : request.id with
        | none => exact h
        | some id =>
          have hat : s.requestAt fromSlice k = some request := by
            unfold Server.requestAt
            rw [hline]
            show (fromSlice bytes).bind McpRequest.fromValue = some request
            rw [hvalue]
            exact hrequest
          exact h.accept hat hid

theorem readLine (h : Accounted fromSlice granted s) (line : Line) :
    Accounted fromSlice granted (s.readLine fromSlice line) := by
  unfold Server.readLine
  cases line with
  | eof => exact ⟨h.working, h.written⟩
  | oversized => exact (h.line .oversized).response (Or.inl ⟨_, rfl⟩)
  | message bytes => exact (h.line (.message bytes)).handleMessage (List.getElem?_concat_length ..)

/-- A step of the server keeps this, where the reply a worker takes is the adapter's. -/
theorem step (h : Accounted fromSlice granted s) {event : Event}
    (hreply : ∀ k reply, event = .handle k reply →
      ∃ request, s.requestAt fromSlice k = some request ∧ Produced granted request reply)
    (hstep : s.step fromSlice event = some s') : Accounted fromSlice granted s' := by
  cases event with
  | read line =>
    simp only [Server.step] at hstep
    split at hstep
    · cases hstep
    · obtain rfl := Option.some.inj hstep
      exact h.readLine line
  | handle k reply =>
    simp only [Server.step] at hstep
    split at hstep
    · next id hworker =>
      obtain rfl := Option.some.inj hstep
      obtain ⟨request, hrequest, hproduced⟩ := hreply k reply rfl
      have hk := h.working k
      rw [hworker] at hk
      obtain ⟨request', hrequest', hid, -⟩ := hk
      obtain rfl := Option.some.inj (hrequest.symm.trans hrequest')
      refine h.goto ⟨request, hrequest, hid, fun other hother => ?_⟩
      obtain rfl := Option.some.inj hother
      exact hproduced
    · cases hstep
  | readToken k =>
    simp only [Server.step] at hstep
    split at hstep
    · next id reply hworker =>
      obtain rfl := Option.some.inj hstep
      refine h.advance hworker fun other hother => ?_
      split at hother
      · cases hother
      · exact hother
    · cases hstep
  | send k =>
    simp only [Server.step] at hstep
    split at hstep
    · next id reply hworker =>
      obtain rfl := Option.some.inj hstep
      have hk := h.working k
      rw [hworker] at hk
      obtain ⟨request, hrequest, hid, hproduced⟩ := hk
      have hsent : Accounted fromSlice granted (s.sendResponse k ⟨some id, reply⟩) :=
        h.response (Or.inr ⟨request, hrequest, hid.symm, hproduced reply rfl⟩)
      exact hsent.advance hworker fun other hother => by cases hother
    · cases hstep
  | remove k =>
    simp only [Server.step] at hstep
    split at hstep
    · obtain rfl := Option.some.inj hstep
      have hdone : Accounted fromSlice granted (s.goto k .done) := h.goto trivial
      exact ⟨hdone.working, hdone.written⟩
    · cases hstep

end Accounted

end Accounted

section Runs

variable [CaseMapping] [TextRules] [ScoreOrder] {fromSlice : List UInt8 → Option Value}
  {p p' : Process} {e : ProcessEvent} {events : List ProcessEvent}

/-- The server stands still, or takes a step in which a reply is the adapter's. -/
def Follows (fromSlice : List UInt8 → Option Value) (p : Process) (server : Server) : Prop :=
  server = p.server ∨ ∃ event, p.server.step fromSlice event = some server ∧
    ∀ k reply, event = .handle k reply → ∃ request, p.server.requestAt fromSlice k = some request ∧
      Produced p.agent.authorization request reply

theorem move_follows {event : Event} (hother : ∀ k reply, event ≠ .handle k reply)
    (h : p.move fromSlice event = some p') :
    p'.agent.authorization = p.agent.authorization ∧ Follows fromSlice p p'.server := by
  obtain ⟨server, hserver, rfl⟩ := Option.map_eq_some_iff.mp h
  exact ⟨rfl, Or.inr ⟨event, hserver, fun k reply heq => absurd heq (hother k reply)⟩⟩

theorem step_follows (h : p.step fromSlice e = some p') :
    p'.agent.authorization = p.agent.authorization ∧ Follows fromSlice p p'.server := by
  cases e with
  | agent agent =>
    simp only [Process.step] at h
    split at h
    · next hgrant =>
      obtain rfl := Option.some.inj h
      exact ⟨hgrant, Or.inl rfl⟩
    · cases h
  | read line => exact move_follows (fun k reply heq => by cases heq) h
  | readToken k => exact move_follows (fun k reply heq => by cases heq) h
  | send k => exact move_follows (fun k reply heq => by cases heq) h
  | remove k => exact move_follows (fun k reply heq => by cases heq) h
  | answer k lost around =>
    simp only [Process.step] at h
    cases hrequest : p.server.requestAt fromSlice k with
    | none =>
      rw [hrequest] at h
      cases h
    | some request =>
      rw [hrequest] at h
      obtain ⟨server, hserver, rfl⟩ := Option.map_eq_some_iff.mp h
      refine ⟨handle_authorization p.adapter p.agent lost around request, Or.inr ⟨_, hserver, ?_⟩⟩
      intro j reply heq
      obtain ⟨rfl, rfl⟩ := Event.handle.inj heq
      exact ⟨request, hrequest, p.adapter, p.agent, lost, around, rfl, rfl⟩

/-- What a run keeps: the server's part is a run of the server, and nothing is held or
written but errors and replies of the adapter. -/
structure Serving (fromSlice : List UInt8 → Option Value) (granted : Finset Capability) (p : Process) :
    Prop where
  grant : p.agent.authorization = granted
  server : ∃ events, Server.run fromSlice events = some p.server
  held : Accounted fromSlice granted p.server

theorem Serving.follows {granted : Finset Capability} (h : Serving fromSlice granted p)
    (hgranted : p'.agent.authorization = granted) (hfollows : Follows fromSlice p p'.server) :
    Serving fromSlice granted p' := by
  rcases hfollows with hsame | ⟨event, hserver, hreply⟩
  · exact ⟨hgranted, hsame ▸ h.server, hsame ▸ h.held⟩
  · obtain ⟨before, hbefore⟩ := h.server
    rw [h.grant] at hreply
    refine ⟨hgranted, ⟨before ++ [event], ?_⟩, h.held.step hreply hserver⟩
    unfold Server.run at hbefore ⊢
    rw [List.foldlM_append, hbefore]
    show (p.server.step fromSlice event).bind some = _
    rw [hserver]
    rfl

theorem serving_run {granted : Finset Capability} (h : Serving fromSlice granted p)
    (hrun : p.run fromSlice events = some p') : Serving fromSlice granted p' := by
  induction events generalizing p with
  | nil =>
    obtain rfl := Option.some.inj hrun
    exact h
  | cons e rest ih =>
    unfold Process.run at hrun
    rw [List.foldlM_cons] at hrun
    obtain ⟨next, hstep, hrest⟩ := Option.bind_eq_some_iff.mp hrun
    obtain ⟨hgranted, hfollows⟩ := step_follows hstep
    exact ih (h.follows (hgranted.trans h.grant) hfollows) hrest

/-- In every run of the whole process, whatever turns its reader and workers take and however
the agent changes meanwhile: its server runs as the server by itself, and a result that is
written for a line answers the request on that line under its identifier. A list of tools is
what the agent grants, a call is refused for the grant exactly where its tool is not on that
list, and what a call answers is an error of the agent or conforms to the schema of its tool. -/
theorem process_answers (agent : AgentService)
    (hrun : (Process.start agent).run fromSlice events = some p) :
    (∃ events, Server.run fromSlice events = some p.server) ∧
      ∀ entry ∈ p.server.sent, ∀ result, entry.2.reply = .result result →
        ∃ request, p.server.requestAt fromSlice entry.1 = some request ∧ entry.2.id = request.id ∧
          Produced agent.authorization request entry.2.reply ∧
          Offered agent.authorization request entry.2 ∧
          (request.method = "tools/call" → ∃ (state : AgentService) (around : RequestSurroundings),
            state.authorization = agent.authorization ∧
              ConformsTo state around request.params result) := by
  have hstart : Serving fromSlice agent.authorization (Process.start agent) :=
    ⟨rfl, ⟨[], rfl⟩, accounted_initial⟩
  have hserving := serving_run hstart hrun
  refine ⟨hserving.server, fun entry hentry result hresult => ?_⟩
  rcases hserving.held.written entry hentry with ⟨error, herror⟩ | ⟨request, hrequest, hid, hproduced⟩
  · rw [hresult] at herror
    cases herror
  · have hkept := hproduced
    obtain ⟨adapter, state, lost, around, hgranted, hreply⟩ := hproduced
    have hoffered := handle_offered adapter state lost around request
    rw [hgranted] at hoffered
    refine ⟨request, hrequest, hid, hkept,
      ⟨fun hmethod other hother => ?_, fun hmethod other hother => ?_⟩, fun hmethod => ?_⟩
    · exact hoffered.listed hmethod other (hreply.trans hother)
    · exact hoffered.called hmethod other (hreply.trans hother)
    · exact ⟨state, around, hgranted, conformsTo_answer hmethod (hreply.trans hresult)⟩

end Runs

section Example

attribute [local instance] asciiTextRules indexOrder asciiCaseMapping

def itemLine (method : String) (id : Int) : Value :=
  .object [("id", .integer id), ("jsonrpc", .string "2.0"), ("method", .string method),
    ("params", itemCall.params)]

/-- A line with the call of an item and one that asks for the tools. -/
def itemFromSlice (bytes : List UInt8) : Option Value :=
  if bytes = [1] then some (itemLine "tools/call" 1)
  else if bytes = [2] then some (itemLine "tools/list" 2)
  else none

/-- The second line is answered first. -/
def itemEvents : List ProcessEvent :=
  [.read (.message [1]), .read (.message [2]), .answer 1 none Agent.undisturbed,
    .answer 0 none Agent.undisturbed, .readToken 1, .send 1, .readToken 0, .send 0]

theorem process_answers_item : ∃ p,
    (Process.start (Agent.metadataService none)).run itemFromSlice itemEvents = some p ∧
    p.server.sent.map (·.1) = [1, 0] ∧
    (∃ events, Server.run itemFromSlice events = some p.server) ∧
      ∀ entry ∈ p.server.sent, ∀ result, entry.2.reply = .result result →
        ∃ request, p.server.requestAt itemFromSlice entry.1 = some request ∧
          entry.2.id = request.id ∧
          Produced (Agent.metadataService none).authorization request entry.2.reply ∧
          Offered (Agent.metadataService none).authorization request entry.2 ∧
          (request.method = "tools/call" → ∃ (state : AgentService) (around : RequestSurroundings),
            state.authorization = (Agent.metadataService none).authorization ∧
              ConformsTo state around request.params result) := by
  obtain ⟨p, hrun, hsent⟩ : ∃ p, (Process.start (Agent.metadataService none)).run itemFromSlice
      itemEvents = some p ∧ p.server.sent.map (·.1) = [1, 0] := ⟨_, rfl, rfl⟩
  exact ⟨p, hrun, hsent, process_answers _ hrun⟩

end Example

end LocalSearch.Mcp
