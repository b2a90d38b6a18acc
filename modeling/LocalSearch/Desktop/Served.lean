import LocalSearch.Agent.Answers

/-!
# What the desktop shows

The coordinator passes on what its transport brings. When that is the agent's response,
a search of the desktop ends with what the agent had for it at one moment of the run.
-/
namespace LocalSearch.Desktop

set_option autoImplicit false

open Core Lib Graph Catalog Agent AgentApi

section Traces

variable {ι : Type} [DecidableEq ι] {calls : ι → Call} {events : List (Event ι)} {e : Event ι}
  {s s' : Coordinator ι} {i : ι}

/-- The answer was exchanged for the valid request of the call. -/
def Exchanged (calls : ι → Call) (events : List (Event ι)) (i : ι) (answer : Answer) : Prop :=
  .exchange i answer ∈ events ∧ (calls i).request.validate = .ok ()

/-- The answer a phase holds was exchanged. -/
def Phase.Carries (calls : ι → Call) (events : List (Event ι)) (i : ι) : Phase → Prop
  | .answered answer | .uncancelled answer | .current answer | .cleared answer =>
      Exchanged calls events i answer
  | .returned (.finished result) =>
      ∃ answer, Exchanged calls events i answer ∧ result = (calls i).interpret answer
  | .idle | .installed | .returned (.refused _) | .returned .stale => True

omit [DecidableEq ι] in
theorem Exchanged.snoc {answer : Answer} (h : Exchanged calls events i answer) (e : Event ι) :
    Exchanged calls (events ++ [e]) i answer :=
  ⟨List.mem_append_left _ h.1, h.2⟩

omit [DecidableEq ι] in
theorem Phase.Carries.snoc {phase : Phase} (h : phase.Carries calls events i) (e : Event ι) :
    phase.Carries calls (events ++ [e]) i := by
  match phase, h with
  | .answered _, h | .uncancelled _, h | .current _, h | .cleared _, h => exact Exchanged.snoc h e
  | .returned (.finished _), h =>
    obtain ⟨answer, hexchanged, hresult⟩ := h
    exact ⟨answer, hexchanged.snoc e, hresult⟩
  | .idle, _ | .installed, _ | .returned (.refused _), _ | .returned .stale, _ => trivial

/-- Only the phase of one call changes. -/
theorem carries_goto (h : ∀ j, (s.phase j).Carries calls events j) {phase : Phase}
    (hphase : phase.Carries calls (events ++ [e]) i) (j : ι) :
    ((s.goto i phase).phase j).Carries calls (events ++ [e]) j := by
  by_cases hji : j = i
  · subst hji
    rw [Coordinator.goto_phase_self]
    exact hphase
  · rw [Coordinator.goto_phase_ne s phase hji]
    exact (h j).snoc e

/-- Each step passes the answer of its call on. -/
theorem step_carries (h : ∀ j, (s.phase j).Carries calls events j)
    (hstep : s.step calls e = some s') : ∀ j, (s'.phase j).Carries calls (events ++ [e]) j := by
  cases e with
  | refuse i =>
    dsimp only [Coordinator.step] at hstep
    split at hstep
    · split_ifs at hstep
      obtain rfl := Option.some.inj hstep
      exact carries_goto h trivial
    · split_ifs at hstep
      obtain rfl := Option.some.inj hstep
      exact carries_goto h trivial
    · cases hstep
  | install i =>
    dsimp only [Coordinator.step] at hstep
    split at hstep
    · split_ifs at hstep
      obtain rfl := Option.some.inj hstep
      intro j
      by_cases hji : j = i
      · subst hji
        rw [Coordinator.install_phase_self]
        trivial
      · rw [Coordinator.install_phase_ne s hji]
        exact (h j).snoc _
    · cases hstep
  | exchange i answer =>
    dsimp only [Coordinator.step] at hstep
    split at hstep
    · split_ifs at hstep with hvalid
      obtain rfl := Option.some.inj hstep
      refine carries_goto h ⟨List.mem_append_right _ List.mem_cons_self, ?_⟩
      obtain ⟨checked, hchecked⟩ := ok_of_isOk hvalid
      exact hchecked
    · cases hstep
  | readFlag i =>
    dsimp only [Coordinator.step] at hstep
    split at hstep
    · next answer hphase =>
      obtain rfl := Option.some.inj hstep
      have hanswer := h i
      rw [hphase] at hanswer
      split_ifs
      · exact carries_goto h trivial
      · exact carries_goto h (Exchanged.snoc hanswer _)
    · cases hstep
  | checkCurrent i =>
    dsimp only [Coordinator.step] at hstep
    split at hstep
    · next answer hphase =>
      obtain rfl := Option.some.inj hstep
      have hanswer := h i
      rw [hphase] at hanswer
      split_ifs
      · exact carries_goto h (Exchanged.snoc hanswer _)
      · exact carries_goto h trivial
    · cases hstep
  | clear i =>
    dsimp only [Coordinator.step] at hstep
    split at hstep
    · next answer hphase =>
      obtain rfl := Option.some.inj hstep
      have hanswer := h i
      rw [hphase] at hanswer
      have hslot : (s.clearIfCurrent (calls i).requestId).phase = s.phase := by
        unfold Coordinator.clearIfCurrent
        split_ifs <;> rfl
      refine carries_goto (fun j => ?_) (Exchanged.snoc hanswer _)
      rw [hslot]
      exact h j
    · cases hstep
  | finish i =>
    dsimp only [Coordinator.step] at hstep
    split at hstep
    · next answer hphase =>
      obtain rfl := Option.some.inj hstep
      have hanswer := h i
      rw [hphase] at hanswer
      exact carries_goto h ⟨answer, Exchanged.snoc hanswer _, rfl⟩
    · cases hstep
  | cancel requestId accepted =>
    dsimp only [Coordinator.step] at hstep
    split_ifs at hstep
    obtain rfl := Option.some.inj hstep
    have hphases : (s.cancel requestId).1.phase = s.phase := by
      unfold Coordinator.cancel
      split
      · split_ifs <;> rfl
      · rfl
    intro j
    rw [hphases]
    exact (h j).snoc _

theorem run_carries (h : Coordinator.run calls events = some s) :
    ∀ j, (s.phase j).Carries calls events j := by
  induction events using List.reverseRecOn generalizing s with
  | nil =>
    obtain rfl := Option.some.inj h
    exact fun _ => trivial
  | append_singleton events e ih =>
    rw [Coordinator.run, List.foldlM_append] at h
    obtain ⟨s₁, h₁, hlast⟩ := Option.bind_eq_some_iff.mp h
    rw [List.foldlM_cons] at hlast
    obtain ⟨s₂, hstep, hlast⟩ := Option.bind_eq_some_iff.mp hlast
    obtain rfl := Option.some.inj hlast
    exact step_carries (ih h₁) hstep

end Traces

section Served

variable [CaseMapping] [TextRules] [ScoreOrder] {ι : Type} [DecidableEq ι] {calls : ι → Call}
  {events : List (Event ι)} {s : Coordinator ι} {i : ι}

/-- The response the agent gives to the request of the call. -/
def responseTo (agent : AgentService) (around : RequestSurroundings) (call : Call) : AgentResponse :=
  (agent.dispatch around (.ofDesktop call.request)).2.toDesktop

/-- Whatever state the agent is in when a request reaches it: its response comes back, or
none does. -/
def Served (calls : ι → Call) (events : List (Event ι)) : Prop :=
  ∀ i response, .exchange i (.ok response) ∈ events →
    ∃ agent around, response = responseTo agent around (calls i)

omit [DecidableEq ι] [CaseMapping] [TextRules] [ScoreOrder] in
theorem answer_ok {α : Type} {answer : Except AgentWireError α} {a : α}
    (h : (answer.mapError fun error => mapAgentError error.code) = .ok a) : answer = .ok a := by
  cases answer with
  | error error => cases h
  | ok found => exact congrArg Except.ok (Except.ok.inj h)

theorem answer_inl {agent : AgentService} {around : RequestSurroundings} {call : Call}
    {shown : DesktopSearchResult} (h : agent.answer around call = .ok (.inl shown)) :
    .searchCatalog ∈ agent.authorization ∧ ∃ response,
      (agent.search around ⟨call.query, .all, ⟨[], none, none, none⟩, desktopTopK⟩).2 = .ok response ∧
        shown = ⟨call.requestId, response⟩ := by
  unfold AgentService.answer at h
  cases hkind : call.kind with
  | catalog =>
    rw [hkind] at h
    obtain ⟨_, hrequire, h⟩ := bind_ok.mp h
    obtain ⟨response, hsearch, h⟩ := bind_ok.mp h
    exact ⟨AgentService.granted_of_require hrequire, response, hsearch,
      (Sum.inl.inj (Except.ok.inj h)).symm⟩
  | content =>
    rw [hkind] at h
    obtain ⟨_, -, h⟩ := bind_ok.mp h
    obtain ⟨_, -, h⟩ := bind_ok.mp h
    cases h

theorem answer_inr {agent : AgentService} {around : RequestSurroundings} {call : Call}
    {shown : DesktopContentSearchResult} (h : agent.answer around call = .ok (.inr shown)) :
    .searchContent ∈ agent.authorization ∧ ∃ response,
      agent.contentSearchImpl around call.query desktopTopK = .ok response ∧
        shown = ⟨call.requestId, response⟩ := by
  unfold AgentService.answer at h
  cases hkind : call.kind with
  | catalog =>
    rw [hkind] at h
    obtain ⟨_, -, h⟩ := bind_ok.mp h
    obtain ⟨_, -, h⟩ := bind_ok.mp h
    cases h
  | content =>
    rw [hkind] at h
    obtain ⟨_, hrequire, h⟩ := bind_ok.mp h
    obtain ⟨response, hsearch, h⟩ := bind_ok.mp h
    exact ⟨AgentService.granted_of_require hrequire, response, hsearch,
      (Sum.inr.inj (Except.ok.inj h)).symm⟩

/-- However searches overlap and are cancelled while the agent changes: a search that
finishes ends with the error of its own exchange, or with exactly what the agent had for
its query at that exchange. What is shown was granted, a catalog search shows the whole
ranking of one generation, and a content search shows only items that were current. -/
theorem shown_is_answered (h : Coordinator.run calls events = some s) (hserved : Served calls events)
    {result : Except DesktopClientError (DesktopSearchResult ⊕ DesktopContentSearchResult)}
    (hphase : s.phase i = .returned (.finished result)) :
    (∃ error, .exchange i (.error error) ∈ events ∧ result = .error error) ∨
    ∃ agent around, .exchange i (.ok (responseTo agent around (calls i))) ∈ events ∧
      result = (agent.answer around (calls i)).mapError (fun error => mapAgentError error.code) ∧
      (∀ shown, result = .ok (.inl shown) →
        .searchCatalog ∈ agent.authorization ∧ shown.requestId = (calls i).requestId ∧
        shown.response.indexGeneration = agent.reader.generation ∧
        searchImpl agent.reader.documents ⟨(calls i).query, .all, ⟨[], none, none, none⟩, desktopTopK⟩ =
          .ok shown.response.hits) ∧
      ∀ shown, result = .ok (.inr shown) →
        .searchContent ∈ agent.authorization ∧ shown.requestId = (calls i).requestId ∧
        (Reachable agent.files.graph → ∀ hit ∈ shown.response.hits,
          agent.getCatalogItem around hit.item.documentId = .ok hit.item) := by
  have hstory := run_carries h i
  rw [hphase] at hstory
  obtain ⟨answer, ⟨hexchange, hvalid⟩, rfl⟩ := hstory
  cases answer with
  | error error => exact Or.inl ⟨error, hexchange, rfl⟩
  | ok response =>
    obtain ⟨agent, around, rfl⟩ := hserved i response hexchange
    have hanswer := interpret_dispatch agent around (calls i) hvalid
    refine Or.inr ⟨agent, around, hexchange, hanswer, fun shown hshown => ?_, fun shown hshown => ?_⟩
    · have hfound := answer_ok (hanswer.symm.trans hshown)
      obtain ⟨hgranted, response, hsearch, hown⟩ := answer_inl hfound
      obtain rfl := hown
      obtain ⟨hgeneration, hwhole⟩ := search_ok hsearch
      exact ⟨hgranted, rfl, hgeneration, hwhole⟩
    · have hfound := answer_ok (hanswer.symm.trans hshown)
      obtain ⟨hgranted, response, hsearch, hown⟩ := answer_inr hfound
      obtain rfl := hown
      exact ⟨hgranted, rfl, fun hreachable => contentSearchImpl_item hreachable.wellFormed hsearch⟩

end Served

section Example

attribute [local instance] asciiTextRules indexOrder asciiCaseMapping

/-- The first search is overtaken after its response came. -/
def servedOvertaken : List (Event Bool) :=
  [.install false, .exchange false (.ok (responseTo contentService undisturbed (twoCalls false))),
    .install true, .exchange true (.ok (responseTo contentService undisturbed (twoCalls true))),
    .readFlag true, .checkCurrent true, .readFlag false, .clear true, .finish true]

theorem shown_is_answered_overtaken : ∃ s result,
    Coordinator.run twoCalls servedOvertaken = some s ∧ s.phase false = .returned .stale ∧
    s.phase true = .returned (.finished result) ∧ result.isOk = true ∧
    ((∃ error, .exchange true (.error error) ∈ servedOvertaken ∧ result = .error error) ∨
    ∃ agent around,
      .exchange true (.ok (responseTo agent around (twoCalls true))) ∈ servedOvertaken ∧
      result = (agent.answer around (twoCalls true)).mapError (fun error => mapAgentError error.code) ∧
      (∀ shown, result = .ok (.inl shown) →
        .searchCatalog ∈ agent.authorization ∧ shown.requestId = (twoCalls true).requestId ∧
        shown.response.indexGeneration = agent.reader.generation ∧
        searchImpl agent.reader.documents
            ⟨(twoCalls true).query, .all, ⟨[], none, none, none⟩, desktopTopK⟩ =
          .ok shown.response.hits) ∧
      ∀ shown, result = .ok (.inr shown) →
        .searchContent ∈ agent.authorization ∧ shown.requestId = (twoCalls true).requestId ∧
        (Reachable agent.files.graph → ∀ hit ∈ shown.response.hits,
          agent.getCatalogItem around hit.item.documentId = .ok hit.item)) := by
  have hserved : Served twoCalls servedOvertaken := by
    intro i response hexchange
    refine ⟨contentService, undisturbed, ?_⟩
    cases i <;> simpa [servedOvertaken] using hexchange
  refine ⟨_, (twoCalls true).interpret (.ok (responseTo contentService undisturbed (twoCalls true))),
    rfl, rfl, rfl, by decide +kernel, shown_is_answered rfl hserved rfl⟩

end Example

end LocalSearch.Desktop
