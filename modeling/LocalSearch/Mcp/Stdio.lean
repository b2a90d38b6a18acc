import LocalSearch.Lib.Table
import LocalSearch.Lib.Json
import LocalSearch.Lib.Result
import Mathlib.Data.List.Induction
import Mathlib.Data.String.Basic

/-!
# MCP over standard input and output

One reader takes the lines in order. A request is given to a worker of its own
under an entry in the table of requests in flight; the worker asks the Agent,
reads its token, sends its response unless the token is set, and removes the
entry. Each of these is a step of its own, between any steps of the reader and
of the other workers.
-/
namespace LocalSearch.Mcp

set_option autoImplicit false

open Lib

def maxInFlight : Nat := 16

/-- A JSON value; objects hold each key once. -/
inductive Value where
  | null
  | bool (value : Bool)
  | integer (value : Int)
  | float (text : String)
  | string (value : String)
  | array (items : List Value)
  | object (fields : List (String × Value))

namespace Value

def get : Value → String → Option Value
  | .object fields, key => fields.lookup key
  | _, _ => none

def asStr : Value → Option String
  | .string value => some value
  | _ => none

def asI64 : Value → Option Int
  | .integer value => if -2 ^ 63 ≤ value ∧ value < 2 ^ 63 then some value else none
  | _ => none

end Value

inductive McpId where
  | number (value : Int)
  | string (value : String)
  deriving DecidableEq, Repr

def McpId.key : McpId → String
  | .number value => "n:" ++ jsonInt value
  | .string value => "s:" ++ value

structure McpRequest where
  jsonrpc : String
  id : Option McpId
  method : String
  params : Value

/-- An untagged identifier: a number first, then a string. -/
def McpId.fromValue (value : Value) : Option McpId :=
  (value.asI64.map .number).or (value.asStr.map .string)

/-- A missing field and `null` stand for no identifier. -/
def McpId.optional : Option Value → Option (Option McpId)
  | none | some .null => some none
  | some value => (McpId.fromValue value).map some

def McpRequest.fields (jsonrpc id method params : Option Value) : Option McpRequest := do
  let jsonrpc ← jsonrpc.bind Value.asStr
  let id ← McpId.optional id
  let method ← method.bind Value.asStr
  some ⟨jsonrpc, id, method, params.getD .null⟩

/-- The derived reader: known fields only, or the fields in order. -/
def McpRequest.fromValue (value : Value) : Option McpRequest :=
  match value with
  | .object fields =>
      if fields.all fun field => field.1 ∈ ["jsonrpc", "id", "method", "params"] then
        McpRequest.fields (value.get "jsonrpc") (value.get "id") (value.get "method") (value.get "params")
      else none
  | .array items =>
      if items.length ≤ 4 then McpRequest.fields items[0]? items[1]? items[2]? items[3]? else none
  | _ => none

structure McpError where
  code : Int
  message : String
  data : Option Value

/-- What a response carries beside its identifier. -/
inductive McpReply where
  | result (value : Value)
  | error (error : McpError)

structure McpResponse where
  id : Option McpId
  reply : McpReply

def McpResponse.error (id : Option McpId) (code : Int) (message : String) : McpResponse :=
  ⟨id, .error ⟨code, message, none⟩⟩

/-- What the bounded reader returns. -/
inductive Line where
  | eof
  | message (bytes : List UInt8)
  | oversized

def isCancelNotification (value : Value) : Bool :=
  (value.get "jsonrpc").bind Value.asStr = some "2.0" && (value.get "id").isNone &&
    (value.get "method").bind Value.asStr = some "notifications/cancelled"

/-- The request a cancellation names. -/
def cancelledId (value : Value) : Option McpId :=
  ((value.get "params").bind fun params => params.get "requestId").bind McpId.fromValue

/-- Where a worker stands between its steps. -/
inductive Stage where
  | handling
  | handled (reply : McpReply)
  | sending (reply : McpReply)
  | leaving

inductive Worker where
  | idle
  | running (id : McpId) (stage : Stage)
  | done

/-- Lines, workers and tokens are known by the position of their line. -/
structure Server where
  lines : List Line
  ended : Bool
  inFlight : Table String Nat
  cancelled : Nat → Bool
  workers : Nat → Worker
  sent : List (Nat × McpResponse)

inductive Event where
  | read (line : Line)
  | handle (worker : Nat) (reply : McpReply)
  | readToken (worker : Nat)
  | send (worker : Nat)
  | remove (worker : Nat)

namespace Server

def initial : Server := ⟨[], false, .empty, fun _ => false, fun _ => .idle, []⟩

def sendResponse (s : Server) (k : Nat) (response : McpResponse) : Server :=
  { s with sent := s.sent ++ [(k, response)] }

def goto (s : Server) (k : Nat) (worker : Worker) : Server :=
  { s with workers := Function.update s.workers k worker }

/-- The lock section that sets the token of the request, when it is in flight. -/
def cancelRequest (s : Server) (id : Option McpId) : Server :=
  match id.bind fun id => s.inFlight.get id.key with
  | some k => { s with cancelled := Function.update s.cancelled k true }
  | none => s

/-- The lock section that admits a request, and the worker it is given to. -/
def accept (s : Server) (k : Nat) (id : McpId) : Server :=
  if (s.inFlight.get id.key).isSome then
    s.sendResponse k (.error (some id) (-32600) "duplicate in-flight request id")
  else if maxInFlight ≤ s.inFlight.rows.length then
    s.sendResponse k (.error (some id) (-32000) "too many in-flight requests")
  else { s.goto k (.running id .handling) with inFlight := s.inFlight.insert id.key k }

/-- The lock section at the end of input. -/
def finish (s : Server) : Server :=
  { s with
    ended := true
    cancelled := fun k => s.cancelled k || s.inFlight.rows.any fun row => row.2 = k }

variable (fromSlice : List UInt8 → Option Value)

def handleMessage (s : Server) (k : Nat) (bytes : List UInt8) : Server :=
  match fromSlice bytes with
  | none => s.sendResponse k (.error none (-32700) "invalid JSON")
  | some value =>
      if isCancelNotification value then s.cancelRequest (cancelledId value)
      else
        match McpRequest.fromValue value with
        | none => s.sendResponse k (.error none (-32600) "invalid JSON-RPC request")
        | some request =>
            match request.id with
            | none => s
            | some id => s.accept k id

/-- One turn of the loop of `run_stdio`. -/
def readLine (s : Server) (line : Line) : Server :=
  let k := s.lines.length
  match line with
  | .eof => s.finish
  | .oversized =>
      { s with lines := s.lines ++ [line] }.sendResponse k
        (.error none (-32600) "MCP stdio message exceeds size limit")
  | .message bytes => handleMessage fromSlice { s with lines := s.lines ++ [line] } k bytes

/-- One step of the reader or of a worker, if it is its turn. -/
def step (s : Server) : Event → Option Server
  | .read line => if s.ended then none else some (s.readLine fromSlice line)
  | .handle k reply =>
      match s.workers k with
      | .running id .handling => some (s.goto k (.running id (.handled reply)))
      | _ => none
  | .readToken k =>
      match s.workers k with
      | .running id (.handled reply) =>
          some (s.goto k (.running id (if s.cancelled k then .leaving else .sending reply)))
      | _ => none
  | .send k =>
      match s.workers k with
      | .running id (.sending reply) =>
          some ((s.sendResponse k ⟨some id, reply⟩).goto k (.running id .leaving))
      | _ => none
  | .remove k =>
      match s.workers k with
      | .running id .leaving => some { s.goto k .done with inFlight := s.inFlight.erase id.key }
      | _ => none

/-- The state after these steps, in this order. -/
def run (events : List Event) : Option Server := events.foldlM (step fromSlice) initial

end Server

inductive Kind where
  | unreadable
  | cancellation (id : Option McpId)
  | notification
  | request (id : McpId)

section System

variable (fromSlice : List UInt8 → Option Value)

def Line.kind : Line → Kind
  | .eof | .oversized => .unreadable
  | .message bytes =>
      match fromSlice bytes with
      | none => .unreadable
      | some value =>
          if isCancelNotification value then .cancellation (cancelledId value)
          else
            match McpRequest.fromValue value with
            | none => .unreadable
            | some request =>
                match request.id with
                | none => .notification
                | some id => .request id

/-- The responses to the line at this position. -/
def Server.responses (s : Server) (k : Nat) : List McpResponse :=
  (s.sent.filter fun entry => entry.1 = k).map (·.2)

/-- The line at this position has an entry in the table. -/
def Server.InFlight (s : Server) (k : Nat) : Prop := ∃ key, s.inFlight.get key = some k

/-- The line at this position is a request with this identifier. -/
def Server.Asks (s : Server) (k : Nat) (id : McpId) : Prop :=
  (s.lines[k]?.map (Line.kind fromSlice)) = some (.request id)

/-- The event ends the input, or is a cancellation of this request. -/
def Event.Disturbs (s : Server) (k : Nat) : Event → Prop
  | .read .eof => True
  | .read line => ∃ id, line.kind fromSlice = .cancellation (some id) ∧ s.Asks fromSlice k id
  | _ => False

/-- The request was in flight at a cancellation of it or at the end of input. -/
def Disturbed (events : List Event) (k : Nat) : Prop :=
  ∃ before e after s, events = before ++ e :: after ∧ Server.run fromSlice before = some s ∧
    s.InFlight k ∧ e.Disturbs fromSlice s k

variable {fromSlice} {events : List Event} {e : Event} {s s' : Server} {k j : Nat} {id : McpId}

theorem Disturbed.snoc (h : Disturbed fromSlice events k) (e : Event) :
    Disturbed fromSlice (events ++ [e]) k := by
  obtain ⟨before, e', after, s, rfl, hrun, hflight, hdisturbs⟩ := h
  refine ⟨before, e', after ++ [e], s, ?_, hrun, hflight, hdisturbs⟩
  rw [List.append_assoc, List.cons_append]

theorem disturbed_now (hrun : Server.run fromSlice events = some s) (hflight : s.InFlight k)
    (h : e.Disturbs fromSlice s k) : Disturbed fromSlice (events ++ [e]) k :=
  ⟨events, e, [], s, rfl, hrun, hflight, h⟩

theorem McpId.key_injective : Function.Injective McpId.key := by
  intro a b hab
  have hkinds : ∀ x y : String, "n:" ++ x ≠ "s:" ++ y := by
    intro x y h
    have htexts := congrArg String.toList h
    rw [String.toList_append, String.toList_append] at htexts
    cases htexts
  cases a with
  | number value =>
    cases b with
    | number other => rw [jsonInt_injective (append_left_injective "n:" hab)]
    | string other => exact absurd hab (hkinds _ _)
  | string value =>
    cases b with
    | number other => exact absurd hab.symm (hkinds _ _)
    | string other => rw [append_left_injective "s:" hab]

/-- The request has its response, or needs none. -/
def Closed (fromSlice : List UInt8 → Option Value) (events : List Event) (s : Server) (k : Nat)
    (id : McpId) : Prop :=
  (∃ reply, s.responses k = [⟨some id, reply⟩]) ∨ (s.responses k = [] ∧ Disturbed fromSlice events k)

def Stage.Owes (fromSlice : List UInt8 → Option Value) (events : List Event) (s : Server) (k : Nat)
    (id : McpId) : Stage → Prop
  | .leaving => Closed fromSlice events s k id
  | .handling | .handled _ | .sending _ => s.responses k = []

/-- What a line has got so far. -/
def Account (fromSlice : List UInt8 → Option Value) (events : List Event) (s : Server) (k : Nat) :
    Kind → Worker → Prop
  | .unreadable, .idle => ∃ error, s.responses k = [⟨none, .error error⟩]
  | .cancellation _, .idle | .notification, .idle => s.responses k = []
  | .request id, .idle => ∃ error, s.responses k = [⟨some id, .error error⟩]
  | .request id, .running id' stage =>
      id' = id ∧ s.inFlight.get id.key = some k ∧ stage.Owes fromSlice events s k id
  | .request id, .done => Closed fromSlice events s k id
  | _, _ => False

structure Serves (fromSlice : List UInt8 → Option Value) (events : List Event) (s : Server) : Prop where
  run : Server.run fromSlice events = some s
  bounded : s.inFlight.rows.length ≤ maxInFlight
  occupied : ∀ key k, s.inFlight.get key = some k →
    ∃ id stage, s.workers k = .running id stage ∧ id.key = key
  fresh : ∀ k, s.lines.length ≤ k → s.workers k = .idle ∧ s.responses k = []
  token : ∀ k, s.cancelled k = true → Disturbed fromSlice events k
  account : ∀ k line, s.lines[k]? = some line →
    Account fromSlice events s k (line.kind fromSlice) (s.workers k)

theorem Closed.mono {e : Event} (h : Closed fromSlice events s k id)
    (hsame : s'.responses k = s.responses k) : Closed fromSlice (events ++ [e]) s' k id := by
  unfold Closed
  rw [hsame]
  exact h.imp_right fun hnone => ⟨hnone.1, hnone.2.snoc e⟩

/-- An account is kept by steps that leave the line alone. -/
theorem Account.mono {kind : Kind} {worker : Worker} {e : Event}
    (h : Account fromSlice events s k kind worker) (hsame : s'.responses k = s.responses k)
    (hflight : ∀ key, s.inFlight.get key = some k → s'.inFlight.get key = some k) :
    Account fromSlice (events ++ [e]) s' k kind worker := by
  match kind, worker, h with
  | .unreadable, .idle, h | .cancellation _, .idle, h | .notification, .idle, h
  | .request _, .idle, h =>
    unfold Account at h ⊢
    rw [hsame]
    exact h
  | .request id, .done, h => exact Closed.mono h hsame
  | .request id, .running _ .leaving, ⟨hid, hget, howes⟩ =>
    exact ⟨hid, hflight _ hget, Closed.mono howes hsame⟩
  | .request id, .running _ .handling, ⟨hid, hget, howes⟩
  | .request id, .running _ (.handled _), ⟨hid, hget, howes⟩
  | .request id, .running _ (.sending _), ⟨hid, hget, howes⟩ =>
    exact ⟨hid, hflight _ hget, hsame.trans howes⟩

theorem run_snoc (hrun : Server.run fromSlice events = some s)
    (hstep : s.step fromSlice e = some s') : Server.run fromSlice (events ++ [e]) = some s' := by
  rw [Server.run, List.foldlM_append]
  refine Option.bind_eq_some_iff.mpr ⟨s, hrun, ?_⟩
  rw [List.foldlM_cons]
  exact Option.bind_eq_some_iff.mpr ⟨s', hstep, rfl⟩

theorem serves_initial : Serves fromSlice [] .initial where
  run := rfl
  bounded := Nat.zero_le _
  occupied := nofun
  fresh := fun _ _ => ⟨rfl, rfl⟩
  token := nofun
  account := nofun

@[simp] theorem responses_sendResponse (s : Server) (k : Nat) (response : McpResponse) :
    (s.sendResponse k response).responses j =
      s.responses j ++ if k = j then [response] else [] := by
  unfold Server.responses Server.sendResponse
  rw [List.filter_append, List.map_append]
  by_cases hj : k = j
  · simp [hj]
  · simp [hj]

/-- A worker that runs does so for a request that is in flight. -/
theorem Serves.running (h : Serves fromSlice events s) {stage : Stage}
    (hworker : s.workers k = .running id stage) : ∃ line, s.lines[k]? = some line ∧
      line.kind fromSlice = .request id ∧ s.inFlight.get id.key = some k ∧
      stage.Owes fromSlice events s k id := by
  have hread : k < s.lines.length := by
    by_contra hk
    rw [(h.fresh k (Nat.le_of_not_lt hk)).1] at hworker
    cases hworker
  have haccount := h.account k _ (List.getElem?_eq_getElem hread)
  rw [hworker] at haccount
  cases hkind : (s.lines[k]).kind fromSlice with
  | unreadable | cancellation | notification =>
    rw [hkind] at haccount
    exact haccount.elim
  | request asked =>
    rw [hkind] at haccount
    obtain ⟨rfl, hget, howes⟩ := haccount
    exact ⟨_, List.getElem?_eq_getElem hread, hkind, hget, howes⟩

/-- A worker goes on to its next stage; nothing else but its responses changes. -/
theorem Serves.advances (h : Serves fromSlice events s) {stage stage' : Stage} {s₁ : Server}
    (hstep : s.step fromSlice e = some (s₁.goto k (.running id stage')))
    (hworker : s.workers k = .running id stage) (hlines : s₁.lines = s.lines)
    (hflight : s₁.inFlight = s.inFlight) (hcancelled : s₁.cancelled = s.cancelled)
    (hworkers : s₁.workers = s.workers) (hothers : ∀ j, j ≠ k → s₁.responses j = s.responses j)
    (howes : stage'.Owes fromSlice (events ++ [e]) s₁ k id) :
    Serves fromSlice (events ++ [e]) (s₁.goto k (.running id stage')) := by
  obtain ⟨line, hline, hkind, hget, -⟩ := h.running hworker
  have hself : (s₁.goto k (.running id stage')).workers k = .running id stage' :=
    Function.update_self _ _ _
  have hworkers' : ∀ j, j ≠ k → (s₁.goto k (.running id stage')).workers j = s.workers j :=
    fun j hj => (Function.update_of_ne hj _ _).trans (congrFun hworkers j)
  refine ⟨run_snoc h.run hstep, ?_, ?_, ?_, ?_, ?_⟩
  · show s₁.inFlight.rows.length ≤ maxInFlight
    rw [hflight]
    exact h.bounded
  · intro key j hj
    replace hj : s.inFlight.get key = some j := hflight ▸ hj
    obtain ⟨id', stage₁, hj', hkey⟩ := h.occupied key j hj
    by_cases hjk : j = k
    · subst hjk
      rw [hworker] at hj'
      obtain ⟨rfl, -⟩ := Worker.running.inj hj'
      exact ⟨id, stage', hself, hkey⟩
    · exact ⟨id', stage₁, (hworkers' j hjk).trans hj', hkey⟩
  · intro j hj
    replace hj : s.lines.length ≤ j := hlines ▸ hj
    have hjk : j ≠ k := by
      rintro rfl
      rw [(h.fresh j hj).1] at hworker
      cases hworker
    rw [hworkers' j hjk]
    exact ⟨(h.fresh j hj).1, (hothers j hjk).trans (h.fresh j hj).2⟩
  · intro j hj
    exact (h.token j (hcancelled ▸ hj)).snoc e
  · intro j line' hj
    replace hj : s.lines[j]? = some line' := hlines ▸ hj
    by_cases hjk : j = k
    · subst hjk
      obtain rfl := Option.some.inj (hline.symm.trans hj)
      rw [hself, hkind]
      exact ⟨rfl, (congrArg (·.get id.key) hflight).trans hget, howes⟩
    · rw [hworkers' j hjk]
      exact (h.account j line' hj).mono (hothers j hjk) fun key hkey => hflight ▸ hkey

theorem Serves.handle (h : Serves fromSlice events s) (reply : McpReply)
    (hworker : s.workers k = .running id .handling)
    (hstep : s.step fromSlice e = some (s.goto k (.running id (.handled reply)))) :
    Serves fromSlice (events ++ [e]) (s.goto k (.running id (.handled reply))) := by
  obtain ⟨-, -, -, -, howes⟩ := h.running hworker
  exact h.advances hstep hworker rfl rfl rfl rfl (fun _ _ => rfl) howes

theorem Serves.readToken (h : Serves fromSlice events s) {reply : McpReply}
    (hworker : s.workers k = .running id (.handled reply))
    (hstep : s.step fromSlice e =
      some (s.goto k (.running id (if s.cancelled k then .leaving else .sending reply)))) :
    Serves fromSlice (events ++ [e])
      (s.goto k (.running id (if s.cancelled k then .leaving else .sending reply))) := by
  obtain ⟨-, -, -, -, howes⟩ := h.running hworker
  refine h.advances hstep hworker rfl rfl rfl rfl (fun _ _ => rfl) ?_
  split_ifs with htoken
  · exact .inr ⟨howes, (h.token k htoken).snoc e⟩
  · exact howes

theorem Serves.send (h : Serves fromSlice events s) {reply : McpReply}
    (hworker : s.workers k = .running id (.sending reply))
    (hstep : s.step fromSlice e =
      some ((s.sendResponse k ⟨some id, reply⟩).goto k (.running id .leaving))) :
    Serves fromSlice (events ++ [e])
      ((s.sendResponse k ⟨some id, reply⟩).goto k (.running id .leaving)) := by
  obtain ⟨-, -, -, -, howes⟩ := h.running hworker
  replace howes : s.responses k = [] := howes
  refine h.advances hstep hworker rfl rfl rfl rfl (fun j hj => ?_) (.inl ⟨reply, ?_⟩)
  · rw [responses_sendResponse, if_neg (Ne.symm hj), List.append_nil]
  · rw [responses_sendResponse, if_pos rfl, howes]
    rfl

/-- The entry a worker removes is its own. -/
theorem Serves.remove (h : Serves fromSlice events s)
    (hworker : s.workers k = .running id .leaving)
    (hstep : s.step fromSlice e =
      some { s.goto k .done with inFlight := s.inFlight.erase id.key }) :
    Serves fromSlice (events ++ [e]) { s.goto k .done with inFlight := s.inFlight.erase id.key } := by
  obtain ⟨line, hline, hkind, hget, howes⟩ := h.running hworker
  have hself : (s.goto k .done).workers k = .done := Function.update_self _ _ _
  have hworkers : ∀ j, j ≠ k → (s.goto k .done).workers j = s.workers j :=
    fun j hj => Function.update_of_ne hj _ _
  have hkept : ∀ j, j ≠ k → ∀ key, s.inFlight.get key = some j →
      (s.inFlight.erase id.key).get key = some j := by
    intro j hj key hkey
    rw [Table.get_erase, if_neg]
    · exact hkey
    · rintro rfl
      exact hj (Option.some.inj (hkey.symm.trans hget))
  refine ⟨run_snoc h.run hstep, (Table.length_erase_le _ _).trans h.bounded, ?_, ?_, ?_, ?_⟩
  · intro key j hj
    replace hj : (s.inFlight.erase id.key).get key = some j := hj
    rw [Table.get_erase] at hj
    split_ifs at hj with hkey
    obtain ⟨id', stage, hj', hid'⟩ := h.occupied key j hj
    have hjk : j ≠ k := by
      rintro rfl
      rw [hworker] at hj'
      obtain ⟨rfl, -⟩ := Worker.running.inj hj'
      exact hkey hid'.symm
    exact ⟨id', stage, (hworkers j hjk).trans hj', hid'⟩
  · intro j hj
    have hjk : j ≠ k := by
      rintro rfl
      rw [(h.fresh j hj).1] at hworker
      cases hworker
    exact ⟨(hworkers j hjk).trans (h.fresh j hj).1, (h.fresh j hj).2⟩
  · exact fun j hj => (h.token j hj).snoc e
  · intro j line' hj
    by_cases hjk : j = k
    · subst hjk
      obtain rfl := Option.some.inj (hline.symm.trans hj)
      rw [hself, hkind]
      exact Closed.mono howes rfl
    · rw [hworkers j hjk]
      exact (h.account j line' hj).mono rfl (hkept j hjk)

/-- A line that starts no worker. -/
theorem Serves.reads (h : Serves fromSlice events s) {line : Line}
    (hstep : s.step fromSlice e = some s') (hlines : s'.lines = s.lines ++ [line])
    (hflight : s'.inFlight = s.inFlight) (hworkers : s'.workers = s.workers)
    (hothers : ∀ j, j ≠ s.lines.length → s'.responses j = s.responses j)
    (htokens : ∀ j, s'.cancelled j = true → Disturbed fromSlice (events ++ [e]) j)
    (hnew : Account fromSlice (events ++ [e]) s' s.lines.length (line.kind fromSlice) .idle) :
    Serves fromSlice (events ++ [e]) s' := by
  refine ⟨run_snoc h.run hstep, hflight ▸ h.bounded, ?_, ?_, htokens, ?_⟩
  · intro key j hj
    rw [hworkers]
    exact h.occupied key j (hflight ▸ hj)
  · intro j hj
    rw [hlines, List.length_append, List.length_singleton] at hj
    rw [hworkers, hothers j (by omega)]
    exact h.fresh j (by omega)
  · intro j line' hj
    rw [hworkers]
    by_cases hlast : j = s.lines.length
    · subst hlast
      rw [hlines, List.getElem?_concat_length] at hj
      obtain rfl := Option.some.inj hj
      rw [(h.fresh _ (Nat.le_refl _)).1]
      exact hnew
    · have hlength : j < (s.lines ++ [line]).length := by
        rw [← hlines]
        exact (List.getElem?_eq_some_iff.mp hj).1
      rw [List.length_append, List.length_singleton] at hlength
      rw [hlines, List.getElem?_append_left (by omega)] at hj
      exact (h.account j line' hj).mono (hothers j hlast) fun key hkey => hflight ▸ hkey

/-- A line that starts no worker and sets no token gets what the reader sends. -/
theorem Serves.answers (h : Serves fromSlice events s) {line : Line}
    (hstep : s.step fromSlice e = some s') (hlines : s'.lines = s.lines ++ [line])
    (hflight : s'.inFlight = s.inFlight) (hworkers : s'.workers = s.workers)
    (hcancelled : s'.cancelled = s.cancelled)
    (hothers : ∀ j, j ≠ s.lines.length → s'.responses j = s.responses j)
    (hnew : Account fromSlice (events ++ [e]) s' s.lines.length (line.kind fromSlice) .idle) :
    Serves fromSlice (events ++ [e]) s' :=
  h.reads hstep hlines hflight hworkers hothers
    (fun j hj => (h.token j (hcancelled ▸ hj)).snoc e) hnew

/-- The reader answers the line it has just read. -/
theorem Serves.replies (h : Serves fromSlice events s) {line : Line} {response : McpResponse}
    (hstep : s.step fromSlice e =
      some (Server.sendResponse { s with lines := s.lines ++ [line] } s.lines.length response))
    (hnew : ∀ s₁ : Server, s₁.responses s.lines.length = [response] →
      Account fromSlice (events ++ [e]) s₁ s.lines.length (line.kind fromSlice) .idle) :
    Serves fromSlice (events ++ [e])
      (Server.sendResponse { s with lines := s.lines ++ [line] } s.lines.length response) := by
  have hnone : s.responses s.lines.length = [] := (h.fresh _ (Nat.le_refl _)).2
  refine h.answers hstep rfl rfl rfl rfl (fun j hj => ?_) (hnew _ ?_)
  · rw [responses_sendResponse, if_neg (Ne.symm hj), List.append_nil]
    rfl
  · rw [responses_sendResponse, if_pos rfl]
    show s.responses s.lines.length ++ [response] = [response]
    rw [hnone, List.nil_append]

/-- A token set by a cancellation belongs to the request it names. -/
theorem Serves.cancels (h : Serves fromSlice events s) {line : Line} {id : Option McpId}
    (hline : line ≠ .eof) (hkind : line.kind fromSlice = .cancellation id)
    (hstep : s.step fromSlice (.read line) =
      some (Server.cancelRequest { s with lines := s.lines ++ [line] } id)) :
    Serves fromSlice (events ++ [.read line])
      (Server.cancelRequest { s with lines := s.lines ++ [line] } id) := by
  have hnone : s.responses s.lines.length = [] := (h.fresh _ (Nat.le_refl _)).2
  unfold Server.cancelRequest at hstep ⊢
  cases hfound : id.bind fun id => s.inFlight.get id.key with
  | none =>
    simp only [hfound] at hstep ⊢
    refine h.answers hstep rfl rfl rfl rfl (fun _ _ => rfl) ?_
    rw [hkind]
    exact hnone
  | some k =>
    simp only [hfound] at hstep ⊢
    refine h.reads hstep rfl rfl rfl (fun _ _ => rfl) (fun j hj => ?_) ?_
    · by_cases hjk : j = k
      · subst hjk
        obtain ⟨asked, rfl, hget⟩ := Option.bind_eq_some_iff.mp hfound
        obtain ⟨id', stage, hworker, hkey⟩ := h.occupied _ j hget
        obtain rfl := McpId.key_injective hkey
        obtain ⟨line', hline', hkind', -, -⟩ := h.running hworker
        refine disturbed_now h.run ⟨_, hget⟩ ?_
        have hasks : s.Asks fromSlice j id' := by
          unfold Server.Asks
          rw [hline', Option.map_some, hkind']
        cases line with
        | eof => exact absurd rfl hline
        | oversized => cases hkind
        | message bytes => exact ⟨id', hkind, hasks⟩
      · replace hj : Function.update s.cancelled k true j = true := hj
        rw [Function.update_of_ne hjk] at hj
        exact (h.token j hj).snoc _
    · rw [hkind]
      exact hnone

/-- A request that finds its identifier free and room in the table gets a worker. -/
theorem Serves.admits (h : Serves fromSlice events s) {line : Line} {id : McpId}
    (hkind : line.kind fromSlice = .request id) (hfree : s.inFlight.get id.key = none)
    (hroom : s.inFlight.rows.length < maxInFlight) {s' : Server}
    (hstep : s.step fromSlice e = some s')
    (hs' : s' = ⟨s.lines ++ [line], s.ended, s.inFlight.insert id.key s.lines.length, s.cancelled,
      Function.update s.workers s.lines.length (.running id .handling), s.sent⟩) :
    Serves fromSlice (events ++ [e]) s' := by
  have hlast : ∀ j, j ≠ s.lines.length → s'.workers j = s.workers j := by
    intro j hj
    rw [hs']
    exact Function.update_of_ne hj _ _
  have hself : s'.workers s.lines.length = .running id .handling := by
    rw [hs']
    exact Function.update_self _ _ _
  have hresponses : ∀ j, s'.responses j = s.responses j := by
    intro j
    rw [hs']
    rfl
  have hget : ∀ key, s'.inFlight.get key =
      if key = id.key then some s.lines.length else s.inFlight.get key := by
    intro key
    rw [hs']
    exact Table.get_insert _ _ _ _
  have hlines : s'.lines = s.lines ++ [line] := by rw [hs']
  have hunread : ∀ key j, s.inFlight.get key = some j → j ≠ s.lines.length := by
    rintro key j hj rfl
    obtain ⟨id', stage, hworker, -⟩ := h.occupied key _ hj
    rw [(h.fresh _ (Nat.le_refl _)).1] at hworker
    cases hworker
  refine ⟨run_snoc h.run hstep, ?_, ?_, ?_, ?_, ?_⟩
  · have hlength := s.inFlight.length_insert_le id.key s.lines.length
    rw [hs']
    show (s.inFlight.insert id.key s.lines.length).rows.length ≤ maxInFlight
    omega
  · intro key j hj
    rw [hget] at hj
    split_ifs at hj with hkey
    · obtain rfl := Option.some.inj hj
      exact ⟨id, .handling, hself, hkey.symm⟩
    · rw [hlast j (hunread key j hj)]
      exact h.occupied key j hj
  · intro j hj
    rw [hlines, List.length_append, List.length_singleton] at hj
    rw [hlast j (by omega), hresponses]
    exact h.fresh j (by omega)
  · intro j hj
    rw [hs'] at hj
    exact (h.token j hj).snoc e
  · intro j line' hj
    by_cases hjk : j = s.lines.length
    · subst hjk
      rw [hlines, List.getElem?_concat_length] at hj
      obtain rfl := Option.some.inj hj
      rw [hself, hkind]
      refine ⟨rfl, ?_, (hresponses _).trans (h.fresh _ (Nat.le_refl _)).2⟩
      rw [hget, if_pos rfl]
    · have hlength : j < (s.lines ++ [line]).length := by
        rw [← hlines]
        exact (List.getElem?_eq_some_iff.mp hj).1
      rw [List.length_append, List.length_singleton] at hlength
      rw [hlines, List.getElem?_append_left (by omega)] at hj
      rw [hlast j hjk]
      refine (h.account j line' hj).mono (hresponses j) fun key hkey => ?_
      rw [hget, if_neg]
      · exact hkey
      · rintro rfl
        rw [hfree] at hkey
        cases hkey

/-- At the end of input every request in flight has its token set. -/
theorem Serves.finishes (h : Serves fromSlice events s)
    (hstep : s.step fromSlice (.read .eof) = some s.finish) :
    Serves fromSlice (events ++ [.read .eof]) s.finish := by
  refine ⟨run_snoc h.run hstep, h.bounded, h.occupied, h.fresh, ?_, ?_⟩
  · intro k hk
    replace hk : (s.cancelled k || s.inFlight.rows.any fun row => row.2 = k) = true := hk
    rcases Bool.or_eq_true _ _ ▸ hk with htoken | hrow
    · exact (h.token k htoken).snoc _
    · obtain ⟨⟨key, j⟩, hmem, hj⟩ := List.any_eq_true.mp hrow
      obtain rfl : j = k := of_decide_eq_true hj
      exact disturbed_now h.run ⟨key, Table.mem_rows.mp hmem⟩ trivial
  · exact fun k line hk => (h.account k line hk).mono rfl fun _ hkey => hkey

/-- What `handle_message` does with a message is decided by its kind. -/
theorem Serves.handles (h : Serves fromSlice events s) (bytes : List UInt8)
    (hstep : s.step fromSlice (.read (.message bytes)) =
      some (s.readLine fromSlice (.message bytes))) :
    Serves fromSlice (events ++ [.read (.message bytes)])
      (s.readLine fromSlice (.message bytes)) := by
  have hkind := Line.kind.eq_def fromSlice (.message bytes)
  unfold Server.readLine Server.handleMessage at hstep ⊢
  simp only at hkind hstep ⊢
  cases hvalue : fromSlice bytes with
  | none =>
    simp only [hvalue] at hkind hstep ⊢
    exact h.replies hstep fun s₁ hs₁ => hkind ▸ ⟨_, hs₁⟩
  | some value =>
    simp only [hvalue] at hkind hstep ⊢
    by_cases hcancel : isCancelNotification value = true
    · rw [if_pos hcancel] at hkind hstep ⊢
      exact h.cancels (by nofun) hkind hstep
    · rw [if_neg hcancel] at hkind hstep ⊢
      cases hrequest : McpRequest.fromValue value with
      | none =>
        simp only [hrequest] at hkind hstep ⊢
        exact h.replies hstep fun s₁ hs₁ => hkind ▸ ⟨_, hs₁⟩
      | some request =>
        simp only [hrequest] at hkind hstep ⊢
        cases hid : request.id with
        | none =>
          simp only [hid] at hkind hstep ⊢
          exact h.answers hstep rfl rfl rfl rfl (fun _ _ => rfl)
            (hkind ▸ (h.fresh _ (Nat.le_refl _)).2)
        | some id =>
          simp only [hid] at hkind hstep ⊢
          unfold Server.accept at hstep ⊢
          split_ifs at hstep ⊢ with htaken hfull
          · exact h.replies hstep fun s₁ hs₁ => hkind ▸ ⟨_, hs₁⟩
          · exact h.replies hstep fun s₁ hs₁ => hkind ▸ ⟨_, hs₁⟩
          · exact h.admits hkind (Option.not_isSome_iff_eq_none.mp htaken)
              (Nat.lt_of_not_le hfull) hstep rfl

theorem step_serves (h : Serves fromSlice events s) (hstep : s.step fromSlice e = some s') :
    Serves fromSlice (events ++ [e]) s' := by
  have hstep' := hstep
  cases e with
  | read line =>
    simp only [Server.step] at hstep
    split_ifs at hstep with hended
    obtain rfl := Option.some.inj hstep
    cases line with
    | eof => exact h.finishes hstep'
    | oversized => exact h.replies hstep' fun s₁ hs₁ => ⟨_, hs₁⟩
    | message bytes => exact h.handles bytes hstep'
  | handle k reply =>
    simp only [Server.step] at hstep
    split at hstep
    · next id hworker =>
      obtain rfl := Option.some.inj hstep
      exact h.handle reply hworker hstep'
    · cases hstep
  | readToken k =>
    simp only [Server.step] at hstep
    split at hstep
    · next id reply hworker =>
      obtain rfl := Option.some.inj hstep
      exact h.readToken hworker hstep'
    · cases hstep
  | send k =>
    simp only [Server.step] at hstep
    split at hstep
    · next id reply hworker =>
      obtain rfl := Option.some.inj hstep
      exact h.send hworker hstep'
    · cases hstep
  | remove k =>
    simp only [Server.step] at hstep
    split at hstep
    · next id hworker =>
      obtain rfl := Option.some.inj hstep
      exact h.remove hworker hstep'
    · cases hstep

theorem run_serves : ∀ {events : List Event} {s : Server},
    Server.run fromSlice events = some s → Serves fromSlice events s := by
  intro events
  induction events using List.reverseRecOn with
  | nil =>
    intro s hrun
    obtain rfl : Server.initial = s := Option.some.inj hrun
    exact serves_initial
  | append_singleton events e ih =>
    intro s hrun
    rw [Server.run, List.foldlM_append] at hrun
    obtain ⟨s₁, hs₁, hlast⟩ := Option.bind_eq_some_iff.mp hrun
    rw [List.foldlM_cons] at hlast
    obtain ⟨s₂, hstep, hs₂⟩ := Option.bind_eq_some_iff.mp hlast
    obtain rfl : s₂ = s := Option.some.inj hs₂
    exact step_serves (ih hs₁) hstep

/-- The event is a step of a worker. -/
def Event.OfWorker : Event → Prop
  | .read _ => False
  | _ => True

/-- Steps of workers lead to a smaller table. -/
def Shrinks (fromSlice : List UInt8 → Option Value) (events : List Event) (s : Server) : Prop :=
  ∃ more s', (∀ e ∈ more, e.OfWorker) ∧ Server.run fromSlice (events ++ more) = some s' ∧
    s'.inFlight.rows.length < s.inFlight.rows.length

theorem Shrinks.after (h : Shrinks fromSlice (events ++ [e]) s') (hworker : e.OfWorker)
    (hsame : s'.inFlight = s.inFlight) : Shrinks fromSlice events s := by
  obtain ⟨more, s₂, hmore, hrun, hlength⟩ := h
  refine ⟨e :: more, s₂, List.forall_mem_cons.mpr ⟨hworker, hmore⟩, ?_, hsame ▸ hlength⟩
  rwa [List.append_assoc, List.singleton_append] at hrun

theorem leaving_shrinks (h : Serves fromSlice events s)
    (hworker : s.workers k = .running id .leaving) : Shrinks fromSlice events s := by
  obtain ⟨-, -, -, hget, -⟩ := h.running hworker
  have hstep : s.step fromSlice (.remove k) =
      some { s.goto k .done with inFlight := s.inFlight.erase id.key } := by
    simp only [Server.step, hworker]
  exact ⟨[.remove k], _, fun e he => List.mem_singleton.mp he ▸ trivial, run_snoc h.run hstep,
    Table.length_erase_lt hget⟩

theorem sending_shrinks (h : Serves fromSlice events s) {reply : McpReply}
    (hworker : s.workers k = .running id (.sending reply)) : Shrinks fromSlice events s := by
  have hstep : s.step fromSlice (.send k) =
      some ((s.sendResponse k ⟨some id, reply⟩).goto k (.running id .leaving)) := by
    simp only [Server.step, hworker]
  exact (leaving_shrinks (h.send hworker hstep) (Function.update_self _ _ _)).after trivial rfl

theorem handled_shrinks (h : Serves fromSlice events s) {reply : McpReply}
    (hworker : s.workers k = .running id (.handled reply)) : Shrinks fromSlice events s := by
  have hstep : s.step fromSlice (.readToken k) =
      some (s.goto k (.running id (if s.cancelled k then .leaving else .sending reply))) := by
    simp only [Server.step, hworker]
  have hserves := h.readToken hworker hstep
  split_ifs at hserves with htoken
  · exact (leaving_shrinks hserves (Function.update_self _ _ _)).after trivial rfl
  · exact (sending_shrinks hserves (Function.update_self _ _ _)).after trivial rfl

theorem handling_shrinks (h : Serves fromSlice events s) (reply : McpReply)
    (hworker : s.workers k = .running id .handling) : Shrinks fromSlice events s := by
  have hstep : s.step fromSlice (.handle k reply) =
      some (s.goto k (.running id (.handled reply))) := by
    simp only [Server.step, hworker]
  exact (handled_shrinks (h.handle reply hworker hstep) (Function.update_self _ _ _)).after trivial rfl

/-- Whatever stands in the table, workers alone can empty it. -/
theorem Serves.drains : ∀ {events : List Event} {s : Server}, Serves fromSlice events s →
    ∃ more s', (∀ e ∈ more, e.OfWorker) ∧ Server.run fromSlice (events ++ more) = some s' ∧
      s'.inFlight.rows = [] := by
  intro events s h
  induction hlength : s.inFlight.rows.length using Nat.strong_induction_on generalizing events s with
  | _ n ih =>
    cases hrows : s.inFlight.rows with
    | nil => exact ⟨[], s, nofun, (List.append_nil events).symm ▸ h.run, hrows⟩
    | cons row rest =>
      have hget : s.inFlight.get row.1 = some row.2 :=
        Table.mem_rows.mp (hrows ▸ List.mem_cons_self)
      have hshrinks : Shrinks fromSlice events s := by
        obtain ⟨id, stage, hworker, -⟩ := h.occupied _ _ hget
        cases stage with
        | handling => exact handling_shrinks h (.result .null) hworker
        | handled reply => exact handled_shrinks h hworker
        | sending reply => exact sending_shrinks h hworker
        | leaving => exact leaving_shrinks h hworker
      obtain ⟨more, s₁, hmore, hrun, hless⟩ := hshrinks
      obtain ⟨rest', s₂, hrest, hrun', hempty⟩ := ih _ (hlength ▸ hless) (run_serves hrun) rfl
      refine ⟨more ++ rest', s₂, ?_, by rwa [← List.append_assoc], hempty⟩
      exact List.forall_mem_append.mpr ⟨hmore, hrest⟩

/-- What a line of this kind has been answered once it is not in flight. -/
def Kind.Answered (fromSlice : List UInt8 → Option Value) (events : List Event) (s : Server)
    (k : Nat) : Kind → Prop
  | .unreadable => ∃ error, s.responses k = [⟨none, .error error⟩]
  | .cancellation _ | .notification => s.responses k = []
  | .request id =>
      (s.responses k).length ≤ 1 ∧ (∀ response ∈ s.responses k, response.id = some id) ∧
        ((s.responses k).length = 1 ∨ s.InFlight k ∨ Disturbed fromSlice events k)

theorem Closed.answered (h : Closed fromSlice events s k id) :
    (Kind.request id).Answered fromSlice events s k := by
  rcases h with ⟨reply, hone⟩ | ⟨hnone, hdisturbed⟩
  · refine ⟨by rw [hone]; rfl, fun response hmem => ?_, .inl (by rw [hone]; rfl)⟩
    rw [hone] at hmem
    rw [List.mem_singleton.mp hmem]
  · refine ⟨by rw [hnone]; exact Nat.zero_le _, fun response hmem => ?_, .inr (.inr hdisturbed)⟩
    rw [hnone] at hmem
    cases hmem

theorem waiting_answered (hnone : s.responses k = []) (hflight : s.InFlight k) :
    (Kind.request id).Answered fromSlice events s k := by
  refine ⟨by rw [hnone]; exact Nat.zero_le _, fun response hmem => ?_, .inr (.inl hflight)⟩
  rw [hnone] at hmem
  cases hmem

theorem Account.answered {kind : Kind} {worker : Worker}
    (h : Account fromSlice events s k kind worker) : kind.Answered fromSlice events s k := by
  match kind, worker, h with
  | .unreadable, .idle, h | .cancellation _, .idle, h | .notification, .idle, h => exact h
  | .request id, .idle, ⟨error, hone⟩ => exact Closed.answered (.inl ⟨_, hone⟩)
  | .request id, .done, h => exact Closed.answered h
  | .request id, .running _ .leaving, ⟨_, _, howes⟩ => exact Closed.answered howes
  | .request id, .running _ .handling, ⟨_, hget, howes⟩
  | .request id, .running _ (.handled _), ⟨_, hget, howes⟩
  | .request id, .running _ (.sending _), ⟨_, hget, howes⟩ => exact waiting_answered howes ⟨_, hget⟩

/-- What stands in the table under a key is a request with that key. -/
theorem Serves.asks (h : Serves fromSlice events s) {key : String}
    (hget : s.inFlight.get key = some k) : ∃ id, s.Asks fromSlice k id ∧ id.key = key := by
  obtain ⟨id, stage, hworker, hkey⟩ := h.occupied key k hget
  obtain ⟨line, hline, hkind, -, -⟩ := h.running hworker
  refine ⟨id, ?_, hkey⟩
  unfold Server.Asks
  rw [hline, Option.map_some, hkind]

theorem Server.Asks.unique {id id' : McpId} (h : s.Asks fromSlice k id)
    (h' : s.Asks fromSlice k id') : id = id' :=
  Kind.request.inj (Option.some.inj (h.symm.trans h'))

/-- Every line is answered once, and the table holds distinct requests only. -/
theorem stdio_answers_once (hrun : Server.run fromSlice events = some s) :
    s.inFlight.rows.length ≤ maxInFlight ∧
    (∀ k, s.InFlight k → ∃ id, s.Asks fromSlice k id) ∧
    (∀ k k' id, s.InFlight k → s.InFlight k' → s.Asks fromSlice k id → s.Asks fromSlice k' id →
      k = k') ∧
    (∀ k (line : Line), s.lines[k]? = some line →
      (line.kind fromSlice).Answered fromSlice events s k) ∧
    (∃ more s', (∀ e ∈ more, e.OfWorker) ∧ Server.run fromSlice (events ++ more) = some s' ∧
      ∀ k, ¬ s'.InFlight k) := by
  have h := run_serves hrun
  refine ⟨h.bounded, ?_, ?_, fun k line hline => (h.account k line hline).answered, ?_⟩
  · rintro k ⟨key, hget⟩
    obtain ⟨id, hasks, -⟩ := h.asks hget
    exact ⟨id, hasks⟩
  · rintro k k' id ⟨key, hget⟩ ⟨key', hget'⟩ hasks hasks'
    obtain ⟨asked, hasked, rfl⟩ := h.asks hget
    obtain ⟨asked', hasked', rfl⟩ := h.asks hget'
    obtain rfl := hasked.unique hasks
    obtain rfl := hasked'.unique hasks'
    exact Option.some.inj (hget.symm.trans hget')
  · obtain ⟨more, s', hmore, hrun', hempty⟩ := h.drains
    refine ⟨more, s', hmore, hrun', ?_⟩
    rintro k ⟨key, hget⟩
    have hmem := Table.mem_rows.mpr hget
    rw [hempty] at hmem
    cases hmem

end System

def pingLine : List UInt8 :=
  "\x7b\"jsonrpc\":\"2.0\",\"id\":7,\"method\":\"ping\"\x7d".toUTF8.data.toList

def pingValue : Value :=
  .object [("jsonrpc", .string "2.0"), ("id", .integer 7), ("method", .string "ping")]

def pingFromSlice (bytes : List UInt8) : Option Value :=
  if bytes = pingLine then some pingValue else none

def pingEvents : List Event :=
  [.read (.message pingLine), .read .oversized, .handle 0 (.result (.object [])), .readToken 0,
    .send 0, .remove 0, .read .eof]

theorem ping_answered : ∃ s, Server.run pingFromSlice pingEvents = some s ∧
    s.responses 0 = [⟨some (.number 7), .result (.object [])⟩] ∧
    ∃ error, s.responses 1 = [⟨none, .error error⟩] :=
  ⟨_, rfl, rfl, (@stdio_answers_once pingFromSlice pingEvents _ rfl).2.2.2.1 1 .oversized rfl⟩

end LocalSearch.Mcp
