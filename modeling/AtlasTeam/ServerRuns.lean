import AtlasTeam.Api.CredentialRuns
import AtlasTeam.Calls
import AtlasTeam.Server
import AtlasTeam.Store.Effects
import AtlasTeam.Store.Reversals

/-!
# Who posts, and how many events wait

Runs of the whole server. Every posting comes from a device whose token was accepted and whose user's role
allowed the command when it was read, or from a signed and logged payment event that names a pay link of the
company (`posting_has_author`). Deliveries in flight at once can overrun the webhook backlog by one each and no
more (`webhook_backlog_bounded`).
-/

namespace AtlasTeam

/-! ### A handled payment event -/

/-- A handled delivery: its token, the live pay link it names and the submitted invoice of that link. -/
theorem stripeWebhook_ok {delivery : Delivery} {companyId : Uuid} {cmd : SubmitCommand}
    (h : stripeWebhook delivery = .ok (companyId, cmd)) :
    ∃ eventId token amount link invoice, eventText delivery.event "id" = some eventId ∧
      eventText (checkoutObject delivery.event) "client_reference_id" = some token ∧
      ((checkoutObject delivery.event).get "amount_total").bind Value.asI64 = some amount ∧ 0 < amount ∧
      delivery.payLink token = some link ∧ link.revokedAt = none ∧ delivery.now ≤ link.expiresAt ∧
      delivery.invoice link.companyId link.invoiceId = some invoice ∧ invoice.docstatus = 1 ∧
      companyId = link.companyId ∧ cmd.doctype = "Payment Entry" ∧
      cmd.documentId = some ("PAY-STRIPE-" ++ eventId) ∧ cmd.idempotencyKey = some ("stripe-" ++ eventId) := by
  simp only [stripeWebhook, bind, Except.bind, pure, Except.pure, throw, throwThe, MonadExceptOf.throw] at h
  split_ifs at h
  split at h
  · rename_i eventId hid
    split at h
    · rename_i token htoken
      split at h
      · rename_i amount hamount
        split at h
        · rename_i link hlink
          split_ifs at h with hdead
          split at h
          · rename_i invoice hinvoice
            split_ifs at h with hpaid
            obtain ⟨rfl, rfl⟩ := Prod.mk.inj (Except.ok.inj h)
            obtain ⟨hamount, hpositive⟩ := Option.filter_eq_some_iff.1 hamount
            obtain ⟨hinvoice, hstatus⟩ := Option.filter_eq_some_iff.1 hinvoice
            obtain ⟨hlive, hnow⟩ := not_or.1 hdead
            exact ⟨eventId, token, amount, link, invoice, hid, htoken, hamount, of_decide_eq_true hpositive, hlink,
              Option.not_isSome_iff_eq_none.1 hlive, not_lt.1 hnow, hinvoice, of_decide_eq_true hstatus, rfl, rfl,
              rfl, rfl⟩
          · cases h
        · cases h
      · cases h
    · cases h
  · cases h

/-! ### The credentials of a server -/

/-- The generated values of an event are new. -/
def ServerEvent.Fresh (codec : Codec) (server : Server) : ServerEvent → Prop
  | .credential event => event.Fresh codec server.credentials
  | _ => True

instance (codec : Codec) (server : Server) (event : ServerEvent) : Decidable (event.Fresh codec server) := by
  cases event <;> unfold ServerEvent.Fresh <;> infer_instance

/-- A run in which all generated tokens and ids are new. -/
def FreshServerRun (config : ServerConfig) (events : List ServerEvent) : Prop :=
  Runs.Each (fun early event => event.Fresh config.codec (serverRun config early)) events

instance (config : ServerConfig) (events : List ServerEvent) : Decidable (FreshServerRun config events) :=
  inferInstanceAs (Decidable (Runs.Each _ events))

section Next
variable {config : ServerConfig} {env : Env} {server : Server}

/-- What a command request writes besides the system. -/
theorem CommandRequest.next_write {request : CommandRequest} {call : StoreCall}
    (h : (request.next config env server).2 = .write call) :
    ∃ id seenAt staleBefore, call = .touchDeviceSeen id seenAt staleBefore := by
  unfold next at h
  split at h
  · split at h
    · cases h
    · split at h
      · cases h
      · split at h <;> cases h
  · obtain rfl := ServerEffect.write.inj h
    exact ⟨_, _, _, rfl⟩
  · split at h <;> cases h
  · split at h <;> cases h
  · cases h

/-- A command request logs no webhook event. -/
theorem CommandRequest.next_quiet (request : CommandRequest) (event : WebhookEvent) :
    (request.next config env server).2 ≠ .log event := by
  intro h
  unfold next at h
  split at h
  · split at h
    · cases h
    · split at h
      · cases h
      · split at h <;> cases h
  · cases h
  · split at h <;> cases h
  · split at h <;> cases h
  · cases h

theorem WebhookRequest.next_write {request : WebhookRequest} {call : StoreCall}
    (h : (request.next config env server).2 = .write call) : ∃ entry, call = .appendAudit entry := by
  unfold next at h
  split at h
  · split at h <;> cases h
  · split at h <;> cases h
  · split at h
    · cases h
    · split at h <;> cases h
  · cases h
  · dsimp only at h
    split at h
    · split at h <;> cases h
    · split at h
      · split_ifs at h
      · cases h
  · split at h <;> cases h
  · obtain rfl := ServerEffect.write.inj h
    exact ⟨_, rfl⟩
  · cases h

end Next

/-- What a step does to the credentials: nothing, a step of their desk, or a call that hands nothing out. -/
theorem Server.step_credentials (config : ServerConfig) (server : Server) (event : ServerEvent) :
    (server.step config event).credentials = server.credentials ∨
      (∃ inner, event = .credential inner ∧
        (server.step config event).credentials = server.credentials.step config.codec inner) ∨
      ∃ call, (∀ h, StoreCall.Fresh h call) ∧
        (server.step config event).credentials = server.credentials.write [call] := by
  have happly : ∀ effect : ServerEffect, (∀ call, effect = .write call → ∀ h, StoreCall.Fresh h call) →
      (server.apply config.codec effect).credentials = server.credentials ∨
        ∃ call, (∀ h, StoreCall.Fresh h call) ∧
          (server.apply config.codec effect).credentials = server.credentials.write [call] := by
    intro effect hcall
    cases effect with
    | write call => exact .inr ⟨call, hcall call rfl, rfl⟩
    | _ => exact .inl rfl
  cases event with
  | credential inner => exact .inr (.inl ⟨inner, rfl, rfl⟩)
  | command header companyId command => exact .inl rfl
  | webhook route headers signature body => exact .inl rfl
  | operate op env => exact .inl rfl
  | advance position env =>
    cases hrequest : server.requests[position]? with
    | none =>
      simp only [step, hrequest]
      exact .inl trivial
    | some request =>
      simp only [step, hrequest]
      refine (happly (request.next config env server).2 fun call hcall h => ?_).imp_right .inr
      obtain ⟨id, seenAt, staleBefore, rfl⟩ := CommandRequest.next_write hcall
      trivial
  | advanceWebhook position env =>
    cases hrequest : server.deliveries[position]? with
    | none =>
      simp only [step, hrequest]
      exact .inl trivial
    | some request =>
      simp only [step, hrequest]
      refine (happly (request.next config env server).2 fun call hcall h => ?_).imp_right .inr
      obtain ⟨entry, rfl⟩ := WebhookRequest.next_write hcall
      trivial

theorem CredentialDesk.Sound.write {codec : Codec} {desk : CredentialDesk} (hs : desk.Sound codec)
    {call : StoreCall} (hfresh : call.Fresh desk.history) :
    (desk.write [call]).Sound codec ∧
      Grows desk.store (desk.write [call]).store desk.history (desk.write [call]).history := by
  have hgrows := hs.accounted.grows call hfresh
  exact ⟨⟨hs.accounted.run call hfresh, fun request hmem caller hcaller =>
    (hs.vouched request hmem caller hcaller).mono hgrows.issued, hs.retiring⟩, hgrows⟩

theorem Server.step_sound {config : ServerConfig} {server : Server} {event : ServerEvent}
    (hs : server.credentials.Sound config.codec) (hfresh : event.Fresh config.codec server) :
    (server.step config event).credentials.Sound config.codec ∧
      Grows server.credentials.store (server.step config event).credentials.store
        server.credentials.history (server.step config event).credentials.history := by
  rcases server.step_credentials config event with hsame | ⟨inner, rfl, hstep⟩ | ⟨call, hcall, hstep⟩
  · rw [hsame]
    exact ⟨hs, .refl _ _⟩
  · rw [hstep]
    exact hs.step hfresh
  · rw [hstep]
    exact hs.write (hcall _)

section Runs
variable {config : ServerConfig} {early late : List ServerEvent} {event : ServerEvent}

theorem FreshServerRun.begins (h : FreshServerRun config late) (hearly : early <+: late) :
    FreshServerRun config early :=
  Runs.Each.begins h hearly

theorem FreshServerRun.concat : FreshServerRun config (early ++ [event]) ↔
    FreshServerRun config early ∧ event.Fresh config.codec (serverRun config early) :=
  Runs.each_concat

theorem FreshServerRun.sound (h : FreshServerRun config late) :
    (serverRun config late).credentials.Sound config.codec := by
  induction late using List.reverseRecOn with
  | nil =>
    have hempty : FreshRun config.codec [] := Runs.each_nil
    exact hempty.sound
  | append_singleton early event ih =>
    obtain ⟨hearly, hevent⟩ := FreshServerRun.concat.1 h
    rw [serverRun_concat]
    exact (Server.step_sound (ih hearly) hevent).1

theorem FreshServerRun.grows (h : FreshServerRun config late) (hearly : early <+: late) :
    Grows (serverRun config early).credentials.store (serverRun config late).credentials.store
      (serverRun config early).credentials.history (serverRun config late).credentials.history := by
  obtain ⟨later, rfl⟩ := hearly
  induction later using List.reverseRecOn with
  | nil =>
    rw [List.append_nil]
    exact .refl _ _
  | append_singleton later event ih =>
    rw [← List.append_assoc] at h ⊢
    obtain ⟨hrun, hevent⟩ := FreshServerRun.concat.1 h
    rw [serverRun_concat]
    exact (ih hrun).trans (Server.step_sound hrun.sound hevent).2

end Runs

/-! ### Where commands come from -/

section Origins
variable {S O : Type} {codec : Codec} {backend : Backend S O} {P : Uuid → Actor → Command → Prop}

/-- All commands of a system, in its calls, their drafts and its journal, have an origin. -/
structure System.Originates (P : Uuid → Actor → Command → Prop) (system : System S) : Prop where
  calls : ∀ call ∈ system.calls, P call.companyId call.actor call.command
  drafts : ∀ call ∈ system.calls, ∀ left draft, call.phase = .committing left draft →
    P draft.companyId draft.actor draft.command
  journal : ∀ entry ∈ system.book.journal, P entry.companyId entry.actor entry.command

theorem System.Originates.mono {Q : Uuid → Actor → Command → Prop} {system : System S}
    (h : system.Originates P) (himp : ∀ company actor command, P company actor command →
      Q company actor command) : system.Originates Q :=
  ⟨fun call hcall => himp _ _ _ (h.calls call hcall),
    fun call hcall left draft hphase => himp _ _ _ (h.drafts call hcall left draft hphase),
    fun entry hentry => himp _ _ _ (h.journal entry hentry)⟩

/-- A commit adds at most its own draft to the journal. -/
theorem Book.commit_journal (env : Env) (draft : Draft S) (book : Book S) {entry : Entry S}
    (h : entry ∈ (book.commit backend env draft).journal) :
    entry ∈ book.journal ∨ entry.toDraft = draft := by
  simp only [Book.commit] at h
  split at h
  · split at h
    · exact .inl h
    · rcases List.mem_append.1 h with h | h
      · exact .inl h
      · exact .inr (by rw [List.mem_singleton.1 h])
  · exact .inl h

/-- A command drafts only itself. -/
theorem Call.advance_drafts (codec : Codec) (backend : Backend S O) (call : Call S) (env : Env) (book : Book S)
    {left : Nat} {draft : Draft S} (h : (call.advance codec backend env book).1.phase = .committing left draft) :
    draft.companyId = call.companyId ∧ draft.actor = call.actor ∧ draft.command = call.command := by
  cases hphase : call.phase with
  | building left documentId =>
    simp only [advance, hphase] at h
    unfold build at h
    split at h
    · cases h
    · split at h <;> cases h
      exact ⟨rfl, rfl, rfl⟩
  | start =>
    simp only [advance, hphase] at h
    split at h <;> cases h
  | committing left draft =>
    simp only [advance, hphase] at h
    split at h <;> cases h
  | finished result =>
    simp only [advance, hphase] at h
    cases h

/-- What a step of a command adds to the journal was its draft. -/
theorem Call.advance_journal (call : Call S) (env : Env) (book : Book S) {entry : Entry S}
    (h : entry ∈ (call.advance codec backend env book).2.journal) :
    entry ∈ book.journal ∨ ∃ left, call.phase = .committing left entry.toDraft := by
  cases hphase : call.phase with
  | committing left draft =>
    simp only [advance, hphase] at h
    rcases Book.commit_journal env draft book h with h | rfl
    · exact .inl h
    · exact .inr ⟨left, rfl⟩
  | _ =>
    simp only [advance, hphase] at h
    exact .inl h

/-- What is in the journal after a step has an origin from before it. -/
theorem System.Originates.posts {system : System S} (h : system.Originates P) {event : Event O} {entry : Entry S}
    (hentry : entry ∈ (system.step codec backend event).book.journal) :
    P entry.companyId entry.actor entry.command := by
  cases event with
  | call companyId actor command => exact h.journal entry hentry
  | operate op env => exact h.journal entry hentry
  | advance position env =>
    cases hcall : system.calls[position]? with
    | none =>
      simp only [System.step, hcall] at hentry
      exact h.journal entry hentry
    | some call =>
      simp only [System.step, hcall] at hentry
      rcases call.advance_journal env system.book hentry with hentry | ⟨left, hphase⟩
      · exact h.journal entry hentry
      · exact h.drafts call (List.mem_of_getElem? hcall) left entry.toDraft hphase

/-- A step keeps the origins when the command it brings has one. -/
theorem System.Originates.step (codec : Codec) {system : System S} (h : system.Originates P) (event : Event O)
    (hevent : ∀ company actor command, event = .call company actor command → P company actor command) :
    (system.step codec backend event).Originates P := by
  have hposts : ∀ entry ∈ (system.step codec backend event).book.journal,
      P entry.companyId entry.actor entry.command := fun entry => h.posts
  cases event with
  | call companyId actor command =>
    refine ⟨fun call hcall => ?_, fun call hcall left draft hphase => ?_, h.journal⟩
    · rcases List.mem_append.1 hcall with hcall | hcall
      · exact h.calls call hcall
      · rw [List.mem_singleton.1 hcall]
        exact hevent companyId actor command rfl
    · rcases List.mem_append.1 hcall with hcall | hcall
      · exact h.drafts call hcall left draft hphase
      · rw [List.mem_singleton.1 hcall] at hphase
        cases hphase
  | operate op env => exact ⟨h.calls, h.drafts, h.journal⟩
  | advance position env =>
    cases hcall : system.calls[position]? with
    | none =>
      simp only [System.step, hcall]
      exact h
    | some call =>
      have hmem := List.mem_of_getElem? hcall
      obtain ⟨hcompany, hactor, hcommand⟩ := call.advance_keeps codec backend env system.book
      simp only [System.step, hcall] at hposts ⊢
      refine ⟨forall_mem_set h.calls ?_, ?_, hposts⟩
      · rw [hcompany, hactor, hcommand]
        exact h.calls call hmem
      · refine forall_mem_set (P := fun call => ∀ left draft, call.phase = .committing left draft →
          P draft.companyId draft.actor draft.command) h.drafts fun left draft hphase => ?_
        obtain ⟨hcompany, hactor, hcommand⟩ := call.advance_drafts codec backend env system.book hphase
        rw [hcompany, hactor, hcommand]
        exact h.calls call hmem

end Origins

/-! ### The requests of a run -/

/-- The caller of a command request that has authenticated. -/
def CommandRequest.caller (request : CommandRequest) : Option Caller :=
  match request.phase with
  | .touching caller _ | .entering caller | .running caller .. => some caller
  | .arrived _ | .finished _ => none

section Steps
variable {config : ServerConfig} {server : Server} {event : ServerEvent}

theorem Server.apply_requests (codec : Codec) (server : Server) (effect : ServerEffect) :
    (server.apply codec effect).requests = server.requests ∧
      (server.apply codec effect).deliveries = server.deliveries := by
  cases effect <;> exact ⟨rfl, rfl⟩

/-- The command request at a position after a step: the one there, one that arrived, or that one moved. -/
theorem Server.step_request {position : Nat} {request : CommandRequest}
    (h : (server.step config event).requests[position]? = some request) :
    server.requests[position]? = some request ∨ (∃ header, request.phase = .arrived header) ∨
      ∃ env old, event = .advance position env ∧ server.requests[position]? = some old ∧
        request = { old with phase := (old.next config env server).1 } := by
  cases event with
  | command header companyId command =>
    rcases lt_or_ge position server.requests.length with hlt | hge
    · exact .inl ((List.getElem?_append_left hlt).symm.trans h)
    · have hnew := List.mem_of_getElem? ((List.getElem?_append_right hge).symm.trans h)
      exact .inr (.inl ⟨header, by rw [List.mem_singleton.1 hnew]⟩)
  | advance position' env =>
    cases hold : server.requests[position']? with
    | none =>
      simp only [step, hold] at h
      exact .inl h
    | some old =>
      simp only [step, hold, List.getElem?_set] at h
      split_ifs at h with hsame hlt
      · subst hsame
        exact .inr (.inr ⟨env, old, rfl, hold, (Option.some.inj h).symm⟩)
      · exact .inl h
  | advanceWebhook position' env =>
    simp only [step] at h
    split at h
    · rw [(server.apply_requests config.codec _).1] at h
      exact .inl h
    · exact .inl h
  | _ => exact .inl h

theorem Server.step_requests {request : CommandRequest} (h : request ∈ (server.step config event).requests) :
    request ∈ server.requests ∨ (∃ header, request.phase = .arrived header) ∨
      ∃ position env old, event = .advance position env ∧ server.requests[position]? = some old ∧
        request = { old with phase := (old.next config env server).1 } := by
  obtain ⟨position, hposition⟩ := List.mem_iff_getElem?.1 h
  obtain hold | harrived | ⟨env, old, hmoved⟩ := Server.step_request hposition
  · exact .inl (List.mem_of_getElem? hold)
  · exact .inr (.inl harrived)
  · exact .inr (.inr ⟨position, env, old, hmoved⟩)

/-- So for the deliveries. -/
theorem Server.step_deliveries {request : WebhookRequest} (h : request ∈ (server.step config event).deliveries) :
    request ∈ server.deliveries ∨ request.phase = .received ∨
      ∃ position env old, event = .advanceWebhook position env ∧ server.deliveries[position]? = some old ∧
        request = { old with phase := (old.next config env server).1 } := by
  cases event with
  | webhook route headers signature body =>
    rcases List.mem_append.1 h with h | h
    · exact .inl h
    · exact .inr (.inl (by rw [List.mem_singleton.1 h]))
  | advanceWebhook position env =>
    cases hold : server.deliveries[position]? with
    | none =>
      simp only [step, hold] at h
      exact .inl h
    | some old =>
      simp only [step, hold] at h
      rcases List.mem_or_eq_of_mem_set h with h | rfl
      · exact .inl h
      · exact .inr (.inr ⟨position, env, old, rfl, hold, rfl⟩)
  | advance position env =>
    simp only [step] at h
    split at h
    · rw [(server.apply_requests config.codec _).2] at h
      exact .inl h
    · exact .inl h
  | _ => exact .inl h

end Steps

/-- The request at the position sent a command with the caller's token, and the token was accepted. -/
def Presented (config : ServerConfig) (events : List ServerEvent) (position : Nat) (companyId : Uuid)
    (command : Command) (caller : Caller) : Prop :=
  ∃ early env header, early ++ [.advance position env] <+: events ∧
    (serverRun config early).requests[position]? = some ⟨companyId, command, .arrived header⟩ ∧
    bearerToken header = some caller.token ∧
    (serverRun config early).credentials.store.resolveToken env.now (hashToken config.codec caller.token) =
      some caller.auth

/-- A caller is the one a request had, or its token has just been accepted. -/
theorem CommandRequest.next_caller {config : ServerConfig} {env : Env} {server : Server}
    {request : CommandRequest} {caller : Caller}
    (h : CommandRequest.caller { request with phase := (request.next config env server).1 } = some caller) :
    request.caller = some caller ∨ ∃ header, request.phase = .arrived header ∧
      bearerToken header = some caller.token ∧ server.credentials.store.resolveToken env.now
        (hashToken config.codec caller.token) = some caller.auth := by
  obtain ⟨companyId, command, phase⟩ := request
  cases phase with
  | arrived header =>
    refine .inr ⟨header, rfl, ?_⟩
    simp only [next] at h
    split at h
    · cases h
    · rename_i token htoken
      split at h
      · cases h
      · rename_i auth hauth
        split at h <;> cases h <;> exact ⟨htoken, hauth⟩
  | touching caller' deviceId => exact .inl h
  | entering caller' =>
    refine .inl ?_
    simp only [next] at h
    split at h
    · cases h
    · exact h
  | running caller' role position =>
    refine .inl ?_
    simp only [next] at h
    split at h
    · cases h
    · cases h
    · exact h
  | finished result => exact .inl h

theorem serverRun_presented (config : ServerConfig) (events : List ServerEvent) (position : Nat) :
    ∀ request, (serverRun config events).requests[position]? = some request →
      ∀ caller, request.caller = some caller →
        Presented config events position request.companyId request.command caller := by
  induction events using List.reverseRecOn with
  | nil => exact fun _ hrequest => by cases hrequest
  | append_singleton early event ih =>
    have hmono : ∀ companyId command caller, Presented config early position companyId command caller →
        Presented config (early ++ [event]) position companyId command caller := by
      rintro companyId command caller ⟨run, env, header, hrun, hpresented⟩
      exact ⟨run, env, header, hrun.trans (List.prefix_append _ _), hpresented⟩
    intro request hrequest caller hcaller
    rw [serverRun_concat] at hrequest
    obtain hold | ⟨header, harrived⟩ | ⟨env, old, rfl, hold, rfl⟩ := Server.step_request hrequest
    · exact hmono _ _ caller (ih request hold caller hcaller)
    · rw [CommandRequest.caller, harrived] at hcaller
      cases hcaller
    · rcases CommandRequest.next_caller hcaller with hcaller | ⟨header, harrived, hauth⟩
      · exact hmono _ _ caller (ih old hold caller hcaller)
      · refine ⟨early, env, header, List.prefix_rfl, ?_, hauth⟩
        rw [hold, ← harrived]

/-! ### The deliveries of a run -/

theorem Server.apply_webhooks (codec : Codec) (server : Server) (effect : ServerEffect) :
    server.webhooks <+: (server.apply codec effect).webhooks := by
  cases effect with
  | log event => exact List.prefix_append _ _
  | _ => exact List.prefix_rfl

/-- Nothing is taken from the inbox. -/
theorem Server.step_webhooks (config : ServerConfig) (server : Server) (event : ServerEvent) :
    server.webhooks <+: (server.step config event).webhooks := by
  cases event with
  | advance position env =>
    simp only [step]
    split
    · exact server.apply_webhooks config.codec _
    · exact List.prefix_rfl
  | advanceWebhook position env =>
    simp only [step]
    split
    · exact server.apply_webhooks config.codec _
    · exact List.prefix_rfl
  | _ => exact List.prefix_rfl

/-- A Stripe event with this body is in the inbox. -/
def Server.Logged (server : Server) (body : List UInt8) : Prop :=
  ∃ logged ∈ server.webhooks, logged.kind = .payment ∧ logged.provider = "stripe" ∧ logged.body = body

/-- A delivery is logged, and in the step that comes now it is signed, and the event and the pay link are those its
body names. -/
structure CheckedDelivery (config : ServerConfig) (early : List ServerEvent) (env : Env)
    (signature : Option String) (body : List UInt8) (event : Value) (link : Option PayLink) : Prop where
  logged : (serverRun config early).Logged body
  signed : verifyWebhook config.signatures config.stripeWebhookSecret signature body
    (Int64.ofInt (env.now / 1000)) = .ok ()
  parsed : jsonBody config.codec body = some event
  linked : ∀ found, link = some found → ∃ token row,
    eventText (checkoutObject event) "client_reference_id" = some token ∧
      (serverRun config early).credentials.store.payLinkByHash (hashToken config.codec token) = some row ∧
      row.toPayLink = found

/-- What a delivery has passed where it stands. -/
def WebhookRequest.Backed (config : ServerConfig) (events : List ServerEvent) (request : WebhookRequest) : Prop :=
  match request.phase with
  | .logged => (serverRun config events).Logged request.body
  | .linked event _ link | .invoiced event _ link _ =>
    ∃ early position env, early ++ [.advanceWebhook position env] <+: events ∧
      CheckedDelivery config early env request.signature request.body event link
  | _ => True

section Deliveries
variable {config : ServerConfig} {early : List ServerEvent} {event : ServerEvent}

theorem Server.Logged.concat {body : List UInt8} (h : (serverRun config early).Logged body) :
    (serverRun config (early ++ [event])).Logged body := by
  obtain ⟨logged, hmem, hlogged⟩ := h
  rw [serverRun_concat]
  exact ⟨logged, (Server.step_webhooks config _ event).subset hmem, hlogged⟩

theorem WebhookRequest.Backed.concat {request : WebhookRequest} (h : request.Backed config early)
    (event : ServerEvent) : request.Backed config (early ++ [event]) := by
  unfold Backed at h ⊢
  split at h
  · exact h.concat
  · obtain ⟨run, position, env, hrun, hchecked⟩ := h
    exact ⟨run, position, env, hrun.trans (List.prefix_append _ _), hchecked⟩
  · obtain ⟨run, position, env, hrun, hchecked⟩ := h
    exact ⟨run, position, env, hrun.trans (List.prefix_append _ _), hchecked⟩
  · trivial

/-- A delivery is backed after its next call, when it was before. -/
theorem WebhookRequest.Backed.next {request : WebhookRequest} (h : request.Backed config early) {position : Nat}
    {env : Env} (hrequest : (serverRun config early).deliveries[position]? = some request) :
    WebhookRequest.Backed config (early ++ [.advanceWebhook position env])
      { request with phase := (request.next config env (serverRun config early)).1 } := by
  have hlater := h.concat (.advanceWebhook position env)
  obtain ⟨route, headers, signature, body, phase⟩ := request
  cases phase with
  | received =>
    simp only [WebhookRequest.next]
    split <;> trivial
  | admitted =>
    cases route with
    | stripe =>
      show (serverRun config (early ++ [.advanceWebhook position env])).Logged body
      rw [serverRun_concat]
      simp only [Server.step, hrequest]
      exact ⟨_, List.mem_append_right _ (List.mem_singleton_self _), rfl, rfl, rfl⟩
    | _ => trivial
  | logged =>
    simp only [WebhookRequest.next]
    split
    · trivial
    · rename_i hsigned
      split
      · trivial
      · rename_i event hparsed
        refine ⟨early, position, env, List.prefix_rfl, h, hsigned, hparsed, fun found hfound => ?_⟩
        obtain ⟨token, htoken, hlink⟩ := Option.bind_eq_some_iff.1 hfound
        obtain ⟨row, hrow, rfl⟩ := Option.map_eq_some_iff.1 hlink
        exact ⟨token, row, htoken, hrow, rfl⟩
  | linked event now link => exact hlater
  | invoiced event now link invoice =>
    simp only [WebhookRequest.next]
    split
    · split <;> trivial
    · split
      · split_ifs <;> trivial
      · trivial
  | paying event link call =>
    simp only [WebhookRequest.next]
    split <;> trivial
  | auditing entry answer => trivial
  | finished result => trivial

theorem serverRun_backed (config : ServerConfig) (events : List ServerEvent) :
    ∀ request ∈ (serverRun config events).deliveries, request.Backed config events := by
  induction events using List.reverseRecOn with
  | nil => exact fun _ hmem => absurd hmem List.not_mem_nil
  | append_singleton early event ih =>
    intro request hmem
    rw [serverRun_concat] at hmem
    obtain hold | hreceived | ⟨position, env, old, rfl, hold, rfl⟩ := Server.step_deliveries hmem
    · exact (ih request hold).concat event
    · rw [WebhookRequest.Backed, hreceived]
      trivial
    · exact (ih old (List.mem_of_getElem? hold)).next hold

end Deliveries

/-! ### Every posting has an author -/

/-- A request of a device took a token for the command, and then found a role of the device's user in the company
that allows the command. -/
structure SentBy (config : ServerConfig) (events : List ServerEvent) (companyId : Uuid) (actor : Actor)
    (command : Command) (caller : Caller) (deviceId : Uuid) (role : Role) : Prop where
  roleRead : ∃ early position env, early ++ [.advance position env] <+: events ∧
    Presented config early position companyId command caller ∧
    (serverRun config early).requests[position]? = some ⟨companyId, command, .entering caller⟩ ∧
    requireMembership (serverRun config early).credentials.store.memberships caller.auth companyId = .ok role
  allowed : ∃ allowed, command.roles = some allowed ∧ role ∈ allowed
  auth : caller.auth = ⟨caller.auth.userId, companyId, some deviceId⟩
  actor : actor = .user caller.auth.userId (some deviceId)

/-- A Stripe event is in the inbox; in one step it was found signed with the configured secret and its pay link of
the company was read; and the command is the Payment Entry of it. -/
structure PaidBy (config : ServerConfig) (events : List ServerEvent) (companyId : Uuid) (actor : Actor)
    (command : Command) (token : String) (row : PayLinkRow) : Prop where
  delivery : ∃ early position env signature body event cmd eventId,
    early ++ [.advanceWebhook position env] <+: events ∧
    CheckedDelivery config early env signature body event (some row.toPayLink) ∧
    eventText (checkoutObject event) "client_reference_id" = some token ∧
    (serverRun config early).credentials.store.payLinkByHash (hashToken config.codec token) = some row ∧
    eventText event "id" = some eventId ∧
    command = .submit cmd ∧ cmd.doctype = "Payment Entry" ∧ cmd.idempotencyKey = some ("stripe-" ++ eventId)
  company : row.companyId = companyId
  actor : actor = .system paymentsDeviceId

def FromDevice (config : ServerConfig) (events : List ServerEvent) (companyId : Uuid) (actor : Actor)
    (command : Command) : Prop :=
  ∃ caller deviceId role, SentBy config events companyId actor command caller deviceId role

def FromPayment (config : ServerConfig) (events : List ServerEvent) (companyId : Uuid) (actor : Actor)
    (command : Command) : Prop :=
  ∃ token row, PaidBy config events companyId actor command token row

/-- What a command request has passed when the engine gets its command. -/
theorem Command.authorise_ok {memberships : Memberships} {auth : AuthContext} {companyId : Uuid}
    {command : Command} {role : Role} (h : command.authorise memberships auth companyId = .ok role) :
    requireMembership memberships auth companyId = .ok role ∧
      (∃ allowed, command.roles = some allowed ∧ role ∈ allowed) ∧
      ∃ deviceId, auth = ⟨auth.userId, companyId, some deviceId⟩ := by
  unfold authorise at h
  obtain ⟨found, hmembership, h⟩ := Except.bind_eq_ok.1 h
  obtain ⟨device, hdevice, h⟩ := Except.bind_eq_ok.1 h
  cases hroles : command.roles with
  | none =>
    rw [hroles] at h
    cases h
  | some allowed =>
    rw [hroles] at h
    obtain ⟨⟨⟩, hrole, h⟩ := Except.bind_eq_ok.1 h
    obtain rfl := Except.ok.inj h
    refine ⟨hmembership, ⟨allowed, rfl, requireRole_ok.1 hrole⟩, device, ?_⟩
    obtain ⟨userId, company, deviceId⟩ := auth
    have hsome : deviceId = some device := by
      unfold requireDevice at hdevice
      cases deviceId with
      | none => cases hdevice
      | some id => exact congrArg some (Except.ok.inj hdevice)
    obtain rfl := hsome
    obtain rfl := (requireMembership_ok hmembership).2 rfl
    rfl

/-- A command the engine gets from a command request. -/
theorem CommandRequest.next_call {config : ServerConfig} {env : Env} {server : Server} {request : CommandRequest}
    {companyId : Uuid} {actor : Actor} {command : Command}
    (h : (request.next config env server).2 = .engine (.call companyId actor command)) :
    ∃ caller role, request = ⟨companyId, command, .entering caller⟩ ∧
      actor = .user caller.auth.userId caller.auth.deviceId ∧
      command.authorise server.credentials.store.memberships caller.auth companyId = .ok role := by
  obtain ⟨companyId', command', phase⟩ := request
  cases phase with
  | entering caller =>
    simp only [next] at h
    split at h
    · cases h
    · rename_i role hrole
      injection h with h
      obtain ⟨rfl, rfl, rfl⟩ := Event.call.inj h
      exact ⟨caller, role, rfl, rfl, hrole⟩
  | arrived header =>
    simp only [next] at h
    split at h
    · cases h
    · split at h
      · cases h
      · split at h <;> cases h
  | running caller role position =>
    simp only [next] at h
    split at h <;> cases h
  | _ => cases h

/-- A command the engine gets from a delivery. -/
theorem WebhookRequest.next_call {config : ServerConfig} {env : Env} {server : Server} {request : WebhookRequest}
    {companyId : Uuid} {actor : Actor} {command : Command}
    (h : (request.next config env server).2 = .engine (.call companyId actor command)) :
    ∃ event now link invoice cmd eventId, request.phase = .invoiced event now (some link) invoice ∧
      companyId = link.companyId ∧ actor = .system paymentsDeviceId ∧ command = .submit cmd ∧
      cmd.doctype = "Payment Entry" ∧ eventText event "id" = some eventId ∧
      cmd.idempotencyKey = some ("stripe-" ++ eventId) := by
  obtain ⟨route, headers, signature, body, phase⟩ := request
  cases phase with
  | invoiced event now link invoice =>
    simp only [next] at h
    split at h
    · rename_i company cmd hhandled
      obtain ⟨eventId, token, amount, found, doc, hid, -, -, -, hlink, -, -, -, -, hcompany, hdoctype, -, hkey⟩ :=
        stripeWebhook_ok hhandled
      obtain rfl : link = some found := hlink
      injection h with h
      injection h with hcompany' hactor hcommand
      exact ⟨event, now, found, invoice, cmd, eventId, rfl, hcompany'.symm.trans hcompany, hactor.symm,
        hcommand.symm, hdoctype, hid, hkey⟩
    · split at h
      · split_ifs at h
      · cases h
  | received =>
    simp only [next] at h
    split at h <;> cases h
  | admitted => cases route <;> cases h
  | logged =>
    simp only [next] at h
    split at h
    · cases h
    · split at h <;> cases h
  | paying event link position =>
    simp only [next] at h
    split at h <;> cases h
  | _ => cases h

/-- The grant behind the context of a device. -/
theorem Grant.eq_device {grant : Grant} {userId companyId deviceId : Uuid}
    (h : grant.auth = some ⟨userId, companyId, some deviceId⟩) : grant = .device deviceId userId companyId := by
  cases grant with
  | device id user company =>
    injection h with h
    injection h with huser hcompany hid
    rw [huser, hcompany, Option.some.inj hid]
  | _ => cases h

section Authors
variable {config : ServerConfig} {early : List ServerEvent} {event : ServerEvent} {companyId : Uuid} {actor : Actor}
  {command : Command}

theorem FromDevice.concat (h : FromDevice config early companyId actor command) :
    FromDevice config (early ++ [event]) companyId actor command := by
  obtain ⟨caller, deviceId, role, hsent⟩ := h
  obtain ⟨run, position, env, hrun, hread⟩ := hsent.roleRead
  exact ⟨caller, deviceId, role, ⟨run, position, env, hrun.trans (List.prefix_append _ _), hread⟩, hsent.allowed,
    hsent.auth, hsent.actor⟩

theorem FromPayment.concat (h : FromPayment config early companyId actor command) :
    FromPayment config (early ++ [event]) companyId actor command := by
  obtain ⟨token, row, hpaid⟩ := h
  obtain ⟨run, position, env, signature, body, payment, cmd, eventId, hrun, hdelivery⟩ := hpaid.delivery
  exact ⟨token, row, ⟨run, position, env, signature, body, payment, cmd, eventId,
    hrun.trans (List.prefix_append _ _), hdelivery⟩, hpaid.company, hpaid.actor⟩

/-- The command of a request that is let in comes from a device. -/
theorem fromDevice_of_next {position : Nat} {env : Env} {request : CommandRequest}
    (hrequest : (serverRun config early).requests[position]? = some request)
    (h : (request.next config env (serverRun config early)).2 = .engine (.call companyId actor command)) :
    FromDevice config (early ++ [.advance position env]) companyId actor command := by
  obtain ⟨caller, role, rfl, rfl, hadmit⟩ := CommandRequest.next_call h
  obtain ⟨hrole, hallowed, deviceId, hauth⟩ := Command.authorise_ok hadmit
  have hdevice : caller.auth.deviceId = some deviceId := by rw [hauth]
  have hpresented := serverRun_presented config early position _ hrequest caller rfl
  exact ⟨caller, deviceId, role, ⟨early, position, env, List.prefix_rfl, hpresented, hrequest, hrole⟩, hallowed,
    hauth, by rw [hdevice]⟩

/-- The command of a handled delivery comes from its payment. -/
theorem fromPayment_of_next {position : Nat} {env : Env} {request : WebhookRequest}
    (hrequest : (serverRun config early).deliveries[position]? = some request)
    (h : (request.next config env (serverRun config early)).2 = .engine (.call companyId actor command)) :
    FromPayment config early companyId actor command := by
  obtain ⟨event, now, link, invoice, cmd, eventId, hphase, rfl, rfl, rfl, hdoctype, hid, hkey⟩ :=
    WebhookRequest.next_call h
  have hbacked := serverRun_backed config early request (List.mem_of_getElem? hrequest)
  rw [WebhookRequest.Backed, hphase] at hbacked
  obtain ⟨run, position', env', hrun, hchecked⟩ := hbacked
  obtain ⟨token, row, htoken, hrow, rfl⟩ := hchecked.linked link rfl
  exact ⟨token, row, ⟨run, position', env', request.signature, request.body, event, cmd, eventId, hrun, hchecked,
    htoken, hrow, hid, rfl, hdoctype, hkey⟩, rfl, rfl⟩

theorem Server.apply_originates {P : Uuid → Actor → Command → Prop} {server : Server}
    (h : server.system.Originates P) (effect : ServerEffect)
    (hcall : ∀ company actor command, effect = .engine (.call company actor command) → P company actor command) :
    (server.apply config.codec effect).system.Originates P := by
  cases effect with
  | engine event =>
    exact h.step config.codec event fun company actor command heq => hcall company actor command (congrArg _ heq)
  | _ => exact h

/-- Every command of a run comes from a device or from a payment. -/
theorem serverRun_originates (config : ServerConfig) (events : List ServerEvent) :
    (serverRun config events).system.Originates fun companyId actor command =>
      FromDevice config events companyId actor command ∨ FromPayment config events companyId actor command := by
  induction events using List.reverseRecOn with
  | nil => exact ⟨fun _ h => absurd h List.not_mem_nil, fun _ h => absurd h List.not_mem_nil,
      fun _ h => absurd h List.not_mem_nil⟩
  | append_singleton early event ih =>
    have hold := ih.mono (Q := fun companyId actor command =>
      FromDevice config (early ++ [event]) companyId actor command ∨
        FromPayment config (early ++ [event]) companyId actor command)
      fun _ _ _ h => h.imp FromDevice.concat FromPayment.concat
    rw [serverRun_concat]
    cases event with
    | advance position env =>
      simp only [Server.step]
      split
      · rename_i request hrequest
        refine Server.apply_originates hold _ fun company actor command hcall => .inl ?_
        exact fromDevice_of_next hrequest hcall
      · exact hold
    | advanceWebhook position env =>
      simp only [Server.step]
      split
      · rename_i request hrequest
        refine Server.apply_originates hold _ fun company actor command hcall => .inr ?_
        exact (fromPayment_of_next hrequest hcall).concat
      · exact hold
    | operate op env =>
      have hcall : ∀ company actor command, Event.operate op env = .call company actor command → False :=
        fun _ _ _ h => by cases h
      exact hold.step config.codec _ fun company actor command h => (hcall _ _ _ h).elim
    | _ => exact hold

/-- What is in the journal after a step of a run has an author from before it. -/
theorem serverRun_posts
    {entry : Entry Inner} (hentry : entry ∈ (serverRun config (early ++ [event])).system.book.journal) :
    FromDevice config early entry.companyId entry.actor entry.command ∨
      FromPayment config early entry.companyId entry.actor entry.command := by
  have horigins := serverRun_originates config early
  have happly : ∀ effect : ServerEffect,
      entry ∈ ((serverRun config early).apply config.codec effect).system.book.journal →
        FromDevice config early entry.companyId entry.actor entry.command ∨
          FromPayment config early entry.companyId entry.actor entry.command := by
    intro effect hmem
    cases effect with
    | engine event => exact horigins.posts hmem
    | _ => exact horigins.journal entry hmem
  rw [serverRun_concat] at hentry
  cases event with
  | operate op env => exact horigins.posts hentry
  | advance position env =>
    simp only [Server.step] at hentry
    split at hentry
    · exact happly _ hentry
    · exact horigins.journal entry hentry
  | advanceWebhook position env =>
    simp only [Server.step] at hentry
    split at hentry
    · exact happly _ hentry
    · exact horigins.journal entry hentry
  | _ => exact horigins.journal entry hentry

end Authors

/-- Before the step that posts it, every posting of a run was sent by a device with a token that had been handed
out for it, and then a role of the device's user in the company was found that allows the command; or it is the
payment of a logged and signed event whose token had been handed out with a pay link of the company. -/
theorem posting_has_author (config : ServerConfig) {events : List ServerEvent}
    (hfresh : FreshServerRun config events) {entry : Entry Inner}
    (hentry : entry ∈ (serverRun config events).system.book.journal) :
    ∃ early event, early ++ [event] <+: events ∧ entry ∉ (serverRun config early).system.book.journal ∧
      entry ∈ (serverRun config (early ++ [event])).system.book.journal ∧
      ((∃ caller deviceId role,
        SentBy config early entry.companyId entry.actor entry.command caller deviceId role ∧
        (hashToken config.codec caller.token, .device deviceId caller.auth.userId entry.companyId) ∈
          (serverRun config early).credentials.history.issued) ∨
      ∃ token row link, PaidBy config early entry.companyId entry.actor entry.command token row ∧
        (hashToken config.codec token, .pay link) ∈ (serverRun config early).credentials.history.issued ∧
        row.unrevoked = link.unrevoked) := by
  obtain ⟨early, event, hstep, hbefore, hafter⟩ :=
    Runs.exists_first (P := fun run => entry ∈ (serverRun config run).system.book.journal)
      List.not_mem_nil hentry
  refine ⟨early, event, hstep, hbefore, hafter, ?_⟩
  have hearly : FreshServerRun config early := hfresh.begins ((List.prefix_append _ _).trans hstep)
  rcases serverRun_posts hafter with hdevice | hpayment
  · obtain ⟨caller, deviceId, role, hsent⟩ := hdevice
    refine .inl ⟨caller, deviceId, role, hsent, ?_⟩
    obtain ⟨run, position, env, hrun, ⟨first, env', header, hfirst, -, -, hresolve⟩, -⟩ := hsent.roleRead
    have hbegins : first <+: early :=
      (List.prefix_append first _).trans (hfirst.trans ((List.prefix_append run _).trans hrun))
    obtain ⟨grant, hmem, hauth, -⟩ :=
      (hearly.begins hbegins).sound.accounted.resolveToken_iff.1 hresolve
    refine (hearly.grows hbegins).issued.subset ?_
    rw [← Grant.eq_device (hauth.trans (congrArg some hsent.auth))]
    exact hmem
  · obtain ⟨token, row, hpaid⟩ := hpayment
    obtain ⟨run, position, env, signature, body, payment, cmd, eventId, hrun, -, -, hrow, -⟩ := hpaid.delivery
    have hbegins : run <+: early := (List.prefix_append run _).trans hrun
    have haccounted := (hearly.begins hbegins).sound.accounted
    obtain ⟨link, hmem, hlookup⟩ := haccounted.payLinkByHash_iff.1 hrow
    exact .inr ⟨token, row, link, hpaid, (hearly.grows hbegins).issued.subset hmem,
      haccounted.payLinks_same hmem hlookup⟩

/-- A server with a webhook secret and room for two events of a provider. -/
def shopConfig : ServerConfig where
  codec := serdeCodec
  signatures := sha256Codec
  dateOf _ := some "2026-01-05"
  webhookBacklogMax := 2
  stripeWebhookSecret := some "whsec_test"

/-- Olga registers a till and books the rent on it. -/
def tillBooksRent : List ServerEvent :=
  olgaRegisters.map .credential ++ [.command (some "Bearer till") 1 rentExpense] ++
    List.replicate 7 (.advance 0 ⟨5, "2026-01-05", 0⟩)

/-- The rent has an author, and it is a device. -/
theorem posting_has_author_rent : ∃ entry ∈ (serverRun shopConfig tillBooksRent).system.book.journal,
    ∃ early event, early ++ [event] <+: tillBooksRent ∧
      entry ∉ (serverRun shopConfig early).system.book.journal ∧
      entry ∈ (serverRun shopConfig (early ++ [event])).system.book.journal ∧
      ∃ caller deviceId role,
        SentBy shopConfig early entry.companyId entry.actor entry.command caller deviceId role ∧
        (hashToken serdeCodec caller.token, .device deviceId caller.auth.userId entry.companyId) ∈
          (serverRun shopConfig early).credentials.history.issued := by
  have hposted : (serverRun shopConfig tillBooksRent).system.book.journal.map
      (fun entry => entry.actor.replicationDeviceId) = [none] := by decide +kernel
  obtain ⟨entry, hentry, hactor⟩ :=
    List.mem_map.1 (hposted ▸ List.mem_singleton_self none : none ∈ (serverRun shopConfig
      tillBooksRent).system.book.journal.map fun entry => entry.actor.replicationDeviceId)
  obtain ⟨early, event, hstep, hbefore, hafter, hsent | ⟨token, row, link, hpaid, -⟩⟩ :=
    posting_has_author shopConfig (by decide +kernel) hentry
  · exact ⟨entry, hentry, early, event, hstep, hbefore, hafter, hsent⟩
  · rw [hpaid.actor] at hactor
    cases hactor

/-! ### The webhook backlog -/

/-- A delivery has passed the check of its backlog and is not in the inbox yet. -/
def WebhookRequest.waits (kind : WebhookKind) (provider : String) (request : WebhookRequest) : Bool :=
  match request.phase with
  | .admitted => request.route.kind = kind ∧ request.route.provider = provider
  | _ => false

/-- How many deliveries of a backlog are between its check and the inbox. -/
def Server.waiting (server : Server) (kind : WebhookKind) (provider : String) : Nat :=
  server.deliveries.countP (WebhookRequest.waits kind provider)

section Backlog
variable {config : ServerConfig}

theorem Server.countWebhookEvents_apply (server : Server) (codec : Codec) {effect : ServerEffect}
    (h : ∀ event, effect ≠ .log event) (kind : WebhookKind) (provider : String) :
    (server.apply codec effect).countWebhookEvents kind provider = server.countWebhookEvents kind provider := by
  cases effect with
  | log event => exact absurd rfl (h event)
  | _ => rfl

/-- Past its log a delivery neither waits nor logs. -/
theorem WebhookRequest.next_late (config : ServerConfig) (env : Env) (server : Server) (request : WebhookRequest)
    (hreceived : request.phase ≠ .received) (hadmitted : request.phase ≠ .admitted) (kind : WebhookKind)
    (provider : String) :
    request.waits kind provider = false ∧
    WebhookRequest.waits kind provider { request with phase := (request.next config env server).1 } = false ∧
      ∀ event, (request.next config env server).2 ≠ .log event := by
  obtain ⟨route, headers, signature, body, phase⟩ := request
  cases phase with
  | received => exact absurd rfl hreceived
  | admitted => exact absurd rfl hadmitted
  | logged =>
    refine ⟨rfl, ?_⟩
    simp only [next]
    split
    · exact ⟨rfl, fun _ h => by cases h⟩
    · split <;> exact ⟨rfl, fun _ h => by cases h⟩
  | invoiced event now link invoice =>
    refine ⟨rfl, ?_⟩
    simp only [next]
    split
    · split <;> exact ⟨rfl, fun _ h => by cases h⟩
    · split
      · split_ifs <;> exact ⟨rfl, fun _ h => by cases h⟩
      · exact ⟨rfl, fun _ h => by cases h⟩
  | paying event link position =>
    refine ⟨rfl, ?_⟩
    simp only [next]
    split <;> exact ⟨rfl, fun _ h => by cases h⟩
  | _ => exact ⟨rfl, rfl, fun _ h => by cases h⟩

/-- What a step of a delivery does to a backlog: it goes to wait for one that has room, it moves from the waiting
ones to the inbox, or nothing. -/
theorem WebhookRequest.next_backlog (env : Env) (server : Server) (request : WebhookRequest)
    (hmax : 0 < config.webhookBacklogMax) (kind : WebhookKind) (provider : String) :
    let moved : WebhookRequest := { request with phase := (request.next config env server).1 }
    let server' := server.apply config.codec (request.next config env server).2
    (server'.countWebhookEvents kind provider = server.countWebhookEvents kind provider ∧
      server.countWebhookEvents kind provider < config.webhookBacklogMax) ∨
    server'.countWebhookEvents kind provider + (moved.waits kind provider).toNat =
      server.countWebhookEvents kind provider + (request.waits kind provider).toNat := by
  intro moved server'
  by_cases hreceived : request.phase = .received
  · obtain ⟨route, headers, signature, body, phase⟩ := request
    obtain rfl : phase = .received := hreceived
    cases hcheck : checkWebhookBacklog config server route with
    | error e =>
      refine .inr ?_
      simp only [server', moved, next, hcheck]
      rfl
    | ok =>
      have hroom : server.countWebhookEvents route.kind route.provider < config.webhookBacklogMax := by
        unfold checkWebhookBacklog at hcheck
        split_ifs at hcheck with hoff hfull
        · omega
        · omega
      by_cases hroute : route.kind = kind ∧ route.provider = provider
      · obtain ⟨rfl, rfl⟩ := hroute
        refine .inl ⟨?_, hroom⟩
        simp only [server', next, hcheck]
        rfl
      · refine .inr ?_
        simp only [server', moved, next, hcheck, waits, decide_eq_false hroute]
        rfl
  · by_cases hadmitted : request.phase = .admitted
    · obtain ⟨route, headers, signature, body, phase⟩ := request
      obtain rfl : phase = .admitted := hadmitted
      refine .inr ?_
      have hmoves : moved.waits kind provider = false ∧ ∃ event : WebhookEvent, event.kind = route.kind ∧
          event.provider = route.provider ∧ server'.webhooks = server.webhooks ++ [event] := by
        cases route <;> exact ⟨rfl, _, rfl, rfl, rfl⟩
      obtain ⟨hwaits, event, hkind, hprovider, hlog⟩ := hmoves
      rw [hwaits, Server.countWebhookEvents, hlog, List.countP_append, List.countP_singleton, hkind, hprovider]
      simp only [waits, Server.countWebhookEvents, Bool.toNat, Bool.cond_eq_ite]
      simp
    · obtain ⟨hwaits, hwaits', hquiet⟩ := request.next_late config env server hreceived hadmitted
        kind provider
      refine .inr ?_
      rw [hwaits, hwaits', server.countWebhookEvents_apply _ hquiet]

/-- What a step does to a backlog. -/
theorem Server.step_backlog (server : Server) (event : ServerEvent) (hmax : 0 < config.webhookBacklogMax)
    (kind : WebhookKind) (provider : String) :
    let server' := server.step config event
    (server'.countWebhookEvents kind provider : Int) < config.webhookBacklogMax ∨
    server'.countWebhookEvents kind provider + server'.waiting kind provider =
      server.countWebhookEvents kind provider + server.waiting kind provider := by
  intro server'
  cases event with
  | webhook route headers signature body =>
    refine .inr (congrArg _ ?_)
    simp [server', waiting, step, List.countP_append, WebhookRequest.waits]
  | advance position env =>
    refine .inr ?_
    cases hrequest : server.requests[position]? with
    | none => simp only [server', step, hrequest]
    | some request =>
      have hquiet : ∀ event, (request.next config env server).2 ≠ .log event := request.next_quiet
      have hcount := server.countWebhookEvents_apply config.codec hquiet kind provider
      have hwaiting := congrArg (List.countP (WebhookRequest.waits kind provider))
        (server.apply_requests config.codec (request.next config env server).2).2
      simp only [server', step, hrequest]
      exact congrArg₂ (· + ·) hcount hwaiting
  | advanceWebhook position env =>
    cases hrequest : server.deliveries[position]? with
    | none =>
      refine .inr ?_
      simp only [server', step, hrequest]
    | some request =>
      obtain ⟨hlt, hget⟩ := List.getElem?_eq_some_iff.1 hrequest
      rcases request.next_backlog env server hmax kind provider with
        ⟨hsame, hroom⟩ | hmoves
      · refine .inl ?_
        simp only [server', step, hrequest]
        exact_mod_cast hsame ▸ hroom
      · refine .inr ?_
        have hle : (request.waits kind provider).toNat ≤ server.waiting kind provider := by
          have := List.boole_getElem_le_countP (p := WebhookRequest.waits kind provider) hlt
          rwa [hget, ← Bool.cond_eq_ite] at this
        have hset := List.countP_set (p := WebhookRequest.waits kind provider)
          (a := { request with phase := (request.next config env server).1 }) hlt
        rw [hget, ← Bool.cond_eq_ite, ← Bool.cond_eq_ite] at hset
        simp only [server', step, hrequest, waiting, hset]
        unfold waiting at hle
        simp only [Bool.toNat] at hmoves hle
        show (server.apply _ _).countWebhookEvents kind provider + _ = _
        omega
  | _ => exact .inr rfl

end Backlog

/-- As long as at most `waiting` deliveries of a backlog are at once between its check and the inbox, the inbox has
at most `waiting - 1` more of them than the configured bound. -/
theorem webhook_backlog_bounded (config : ServerConfig) (hmax : 0 < config.webhookBacklogMax) (kind : WebhookKind)
    (provider : String) (waiting : Nat) (events : List ServerEvent)
    (hwaiting : ∀ run, run <+: events → (serverRun config run).waiting kind provider ≤ waiting) :
    ((serverRun config events).countWebhookEvents kind provider : Int) +
      (serverRun config events).waiting kind provider ≤ config.webhookBacklogMax + waiting - 1 := by
  induction events using List.reverseRecOn with
  | nil =>
    show (0 : Int) + 0 ≤ _
    omega
  | append_singleton early event ih =>
    have hearly := ih fun run hrun => hwaiting run (hrun.trans (List.prefix_append _ _))
    have hnow := hwaiting _ List.prefix_rfl
    rw [serverRun_concat] at hnow ⊢
    rcases (serverRun config early).step_backlog event hmax kind provider with
      hroom | hsame
    · omega
    · omega

/-- One delivery is in the inbox, and two more have found it with room. -/
def raceForRoom : List ServerEvent :=
  List.replicate 3 (.webhook (.channel "acme") .null none []) ++
    [0, 0, 1, 2, 1, 2].map fun position => .advanceWebhook position ⟨0, "2026-01-05", 0⟩

/-- Both get in, and the inbox has one more than it should. -/
theorem webhook_backlog_bounded_race :
    (serverRun shopConfig raceForRoom).countWebhookEvents .channel "acme" = 3 ∧
    ((serverRun shopConfig raceForRoom).countWebhookEvents .channel "acme" : Int) +
      (serverRun shopConfig raceForRoom).waiting .channel "acme" ≤ 2 + 2 - 1 := by
  refine ⟨by decide +kernel, webhook_backlog_bounded shopConfig (by decide) .channel "acme" 2 raceForRoom ?_⟩
  have htakes : ∀ n ≤ raceForRoom.length,
      (serverRun shopConfig (raceForRoom.take n)).waiting .channel "acme" ≤ 2 := by
    decide +kernel
  intro run hrun
  rw [List.prefix_iff_eq_take.1 hrun]
  exact htakes _ hrun.length_le

end AtlasTeam
