import MyMovies.Firebase.OrderedPuts
import MyMovies.Firebase.Repo

/-!
# The client

The repo gives its listens and its writes to the connection, and is told by it
what the server answers and sends.  The block of a put is the number of its write.
Every run of the two is a run of the repo, in which the server answers only writes
that are pending.
-/

namespace MyMovies
namespace Firebase

open Foundation

structure Client where
  repo : FRepo
  connection : FPersistentConnection Write Int
  /-- The events that the repo has handled. -/
  trace : List FRepo.Event

namespace Client

open FPersistentConnection (kFWPResponseForActionStatusOk kFErrorWriteCanceled completed)

def init : Client where
  repo := FRepo.init
  connection := FPersistentConnection.init
  trace := []

inductive Event where
  | set (write : Write)
  | purgeOutstandingWrites
  | addEventRegistration (handle : Nat)
  | removeEventRegistration (handle : Nat)
  /-- What the network, the server, the token provider and the application's state do. -/
  | connection (e : FPersistentConnection.Event Write Int)

/-- What the repo does first. -/
def Event.own : Event -> List FRepo.Event
  | .set write => [.set write]
  | .purgeOutstandingWrites => [.purgeOutstandingWrites]
  | .addEventRegistration handle => [.addEventRegistration handle]
  | .removeEventRegistration handle => [.removeEventRegistration handle]
  | .connection _ => []

/-- What it then asks of the connection: the first view listens, and the last stops that. -/
def requested (client : Client) (repo : FRepo) :
    Event -> Option (FPersistentConnection.Event Write Int)
  | .set write => some (.putData write none client.repo.writeIdCounter)
  | .purgeOutstandingWrites => some .purgeOutstandingWrites
  | .addEventRegistration _ =>
      if client.repo.serverSyncTree.view.isNone then some (.listen []) else none
  | .removeEventRegistration _ =>
      if client.repo.serverSyncTree.view.isSome && repo.serverSyncTree.view.isNone then
        some (.unlisten [])
      else none
  | .connection e => some e

def writeStatus (status : String) : WriteStatus :=
  if status = kFErrorWriteCanceled then .canceled
  else if status = kFWPResponseForActionStatusOk then .ok
  else .error status

def told : Call Write Int -> List FRepo.Event
  | .onComplete writeId status _ => [.ackWrite writeId (writeStatus status)]
  | .onListenComplete _ status =>
      if status = kFWPResponseForActionStatusOk then [.listenComplete] else [.listenRevoked]
  | .onDataUpdate data => [.onDataUpdate data]
  | _ => []

def step (client : Client) (e : Event) : Option Client :=
  (Runs.run FRepo.step client.repo e.own).bind fun repo =>
    match client.requested repo e with
    | none => some { client with repo := repo, trace := client.trace ++ e.own }
    | some request =>
        (client.connection.step request).bind fun r =>
          (Runs.run FRepo.step repo (r.2.flatMap told)).map fun repo' =>
            { repo := repo'
              connection := r.1
              trace := client.trace ++ (e.own ++ r.2.flatMap told) }

def events (client : Client) (e : Event) : List FRepo.Event :=
  e.own ++ ((Runs.run FRepo.step client.repo e.own).bind fun repo =>
    (client.requested repo e).bind client.connection.step).elim [] fun r => r.2.flatMap told

end Client

namespace FRepo

def pending (repo : FRepo) : List Int :=
  repo.serverSyncTree.pendingWriteTree.allWrites.map FWriteRecord.writeId

def listening (repo : FRepo) : Bool := repo.serverSyncTree.view.isSome

/-- An event that leaves the writes and the view in place. -/
structure Undisturbed (repo repo' : FRepo) : Prop where
  inv : repo'.Inv
  records : repo'.serverSyncTree.pendingWriteTree.allWrites =
    repo.serverSyncTree.pendingWriteTree.allWrites
  counter : repo'.writeIdCounter = repo.writeIdCounter
  listening : repo'.listening = repo.listening

theorem listening_of_operation {repo repo' : FRepo} (h : repo.Inv) {e : Event}
    (hanswers : repo.Answers e) (he : e.isOperation = true) (hstep : repo.step e = some repo') :
    repo'.listening = repo.listening := by
  have hsame : forall view view' : Option FView,
      Option.Rel FView.Heard view view' -> view'.isSome = view.isSome := by
    intro view view' hheard
    cases hheard with
    | none => rfl
    | some _ => rfl
  exact hsame _ _ (operation_heard h hanswers he hstep)

theorem listenComplete_undisturbed {repo repo' : FRepo} (h : repo.Inv)
    (hstep : repo.step .listenComplete = some repo') : Undisturbed repo repo' := by
  have hinv := (step_spec (e := .listenComplete) h trivial hstep).inv
  have hlistening := listening_of_operation (e := .listenComplete) h trivial rfl hstep
  rcases Option.map_eq_some_iff.mp hstep with ⟨tree', htree', rfl⟩
  have hwrites := FSyncTree.applyOperationToSyncPoints_writes htree'
  exact ⟨hinv, congrArg FWriteTree.allWrites hwrites, rfl, hlistening⟩

theorem onDataUpdate_undisturbed {repo repo' : FRepo} (h : repo.Inv) {data : Write}
    (hstep : repo.step (.onDataUpdate data) = some repo') : Undisturbed repo repo' := by
  have hinv := (step_spec (e := .onDataUpdate data) h trivial hstep).inv
  have hlistening := listening_of_operation (e := .onDataUpdate data) h trivial rfl hstep
  rcases Option.map_eq_some_iff.mp hstep with ⟨tree', htree', rfl⟩
  have hwrites := FSyncTree.applyOperationToSyncPoints_writes htree'
  exact ⟨hinv, congrArg FWriteTree.allWrites hwrites, rfl, hlistening⟩

theorem acked_of_step {repo repo' : FRepo} {writeId : Int} {status : WriteStatus}
    (hstatus : status ≠ .canceled) (hstep : repo.step (.ackWrite writeId status) = some repo') :
    exists revert tree', repo.serverSyncTree.ackUserWriteWithWriteId writeId revert = some tree' ∧
      repo' = repo.withTree tree' := by
  cases status with
  | canceled => exact absurd rfl hstatus
  | ok =>
      rcases Option.map_eq_some_iff.mp hstep with ⟨tree', htree', rfl⟩
      exact ⟨false, tree', htree', rfl⟩
  | error status =>
      rcases Option.map_eq_some_iff.mp hstep with ⟨tree', htree', rfl⟩
      exact ⟨true, tree', htree', rfl⟩

structure First (repo : FRepo) (rest : List Int) (repo' : FRepo) : Prop where
  inv : repo'.Inv
  pending : repo'.pending = rest
  records : repo'.serverSyncTree.pendingWriteTree.allWrites <:+
    repo.serverSyncTree.pendingWriteTree.allWrites
  counter : repo'.writeIdCounter = repo.writeIdCounter
  listening : repo'.listening = repo.listening

theorem ackWrite_first {repo : FRepo} (h : repo.Inv) {writeId : Int} {rest : List Int}
    (hpending : repo.pending = writeId :: rest) {status : WriteStatus}
    (hstatus : status ≠ .canceled) :
    repo.Answers (.ackWrite writeId status) ∧
      forall repo', repo.step (.ackWrite writeId status) = some repo' -> First repo rest repo' := by
  cases hrecords : repo.serverSyncTree.pendingWriteTree.allWrites with
  | nil =>
      rw [pending, hrecords] at hpending
      cases hpending
  | cons w records =>
      rw [pending, hrecords] at hpending
      rcases List.cons.inj hpending with ⟨rfl, hrest⟩
      have hfirst := answers_of_first h.tree hrecords
      have hanswers : repo.Answers (.ackWrite w.writeId status) := by
        cases status with
        | canceled => exact absurd rfl hstatus
        | _ => exact hfirst
      refine ⟨hanswers, ?_⟩
      intro repo' hstep
      have hinv := (step_spec h hanswers hstep).inv
      have hlistening := listening_of_operation h hanswers rfl hstep
      rcases acked_of_step hstatus hstep with ⟨revert, tree', htree', rfl⟩
      have hleft := answered_first h.tree hrecords
        (FSyncTree.ackUserWriteWithWriteId_spec h.tree hfirst htree').answered
      refine ⟨hinv, ?_, ?_, rfl, hlistening⟩
      · rw [← hrest]
        exact congrArg (List.map FWriteRecord.writeId) hleft
      · show tree'.pendingWriteTree.allWrites <:+ _
        rw [hleft, hrecords]
        exact List.suffix_cons _ _

theorem listenRevoked_step {repo repo' : FRepo} (h : repo.Inv)
    (hstep : repo.step .listenRevoked = some repo') :
    repo'.Inv ∧ repo'.serverSyncTree.pendingWriteTree.allWrites =
        repo.serverSyncTree.pendingWriteTree.allWrites ∧
      repo'.writeIdCounter = repo.writeIdCounter ∧ repo'.listening = false := by
  have hinv := (step_spec (e := .listenRevoked) h trivial hstep).inv
  have hwrites := FSyncTree.removeEventRegistration_writes repo.serverSyncTree none
  cases hstep
  refine ⟨hinv, congrArg FWriteTree.allWrites hwrites, rfl, ?_⟩
  show (repo.serverSyncTree.removeEventRegistration none).view.isSome = false
  unfold FSyncTree.removeEventRegistration
  cases hview : repo.serverSyncTree.view with
  | none =>
      simp only [hview]
      rfl
  | some view => simp [FValueEventRegistration.matches]

end FRepo

namespace Client

open FPersistentConnection (kFWPResponseForActionStatusOk kFErrorWriteCanceled completed)

/-!
## What the repo is told
-/

/-- The oldest writes are answered in turn, and the view stays unless its listen is refused. -/
structure Told (repo : FRepo) (calls : List (Call Write Int)) (rest : List Int)
    (repo' : FRepo) : Prop where
  inv : repo'.Inv
  pending : repo'.pending = rest
  records : repo'.serverSyncTree.pendingWriteTree.allWrites <:+
    repo.serverSyncTree.pendingWriteTree.allWrites
  counter : repo'.writeIdCounter = repo.writeIdCounter
  listening : repo'.listening = true <-> repo.listening = true ∧
    forall query status, .onListenComplete query status ∈ calls ->
      status = kFWPResponseForActionStatusOk

theorem Told.cons {repo mid repo' : FRepo} {call : Call Write Int} {calls : List (Call Write Int)}
    {rest : List Int} (h : Told mid calls rest repo')
    (hrecords : mid.serverSyncTree.pendingWriteTree.allWrites <:+
      repo.serverSyncTree.pendingWriteTree.allWrites)
    (hcounter : mid.writeIdCounter = repo.writeIdCounter)
    (hlistening : mid.listening = true <-> repo.listening = true ∧
      forall query status, call = .onListenComplete query status ->
        status = kFWPResponseForActionStatusOk) : Told repo (call :: calls) rest repo' where
  inv := h.inv
  pending := h.pending
  records := h.records.trans hrecords
  counter := h.counter.trans hcounter
  listening := by
    rw [h.listening, hlistening, and_assoc]
    refine and_congr_right fun _ => ?_
    constructor
    · intro hall query status hmem
      rcases List.mem_cons.mp hmem with heq | hmem
      · exact hall.left query status heq.symm
      · exact hall.right query status hmem
    · intro hall
      exact ⟨fun query status heq => hall query status (by rw [heq]; exact List.mem_cons_self),
        fun query status hmem => hall query status (List.mem_cons_of_mem _ hmem)⟩

/-- What the repo is told are answers to writes that are pending, and it is left so. -/
structure Hears (repo : FRepo) (calls : List (Call Write Int)) (rest : List Int) : Prop where
  answers : Runs.Guarded FRepo.step FRepo.Answers repo (calls.flatMap told)
  told : forall repo', Runs.run FRepo.step repo (calls.flatMap told) = some repo' ->
    Told repo calls rest repo'

theorem Hears.nothing {repo : FRepo} {call : Call Write Int} {calls : List (Call Write Int)}
    {rest : List Int} (h : Hears repo calls rest) (htold : Client.told call = [])
    (hlisten : forall query status, call ≠ .onListenComplete query status) :
    Hears repo (call :: calls) rest := by
  constructor
  case answers =>
    rw [List.flatMap_cons, htold, List.nil_append]
    exact h.answers
  case told =>
    rw [List.flatMap_cons, htold, List.nil_append]
    intro repo' hrun
    apply (h.told repo' hrun).cons (List.suffix_refl _) rfl
    exact ⟨fun hyes => ⟨hyes, fun query status heq => absurd heq (hlisten query status)⟩, And.left⟩

structure Handles (repo : FRepo) (call : Call Write Int) (calls : List (Call Write Int))
    (rest : List Int) (mid : FRepo) : Prop where
  later : Hears mid calls rest
  records : mid.serverSyncTree.pendingWriteTree.allWrites <:+
    repo.serverSyncTree.pendingWriteTree.allWrites
  counter : mid.writeIdCounter = repo.writeIdCounter
  listening : mid.listening = true <-> repo.listening = true ∧
    forall query status, call = .onListenComplete query status ->
      status = kFWPResponseForActionStatusOk

theorem Hears.handled {repo : FRepo} {call : Call Write Int} {calls : List (Call Write Int)}
    {rest : List Int} {e : FRepo.Event} (htold : Client.told call = [e])
    (hanswers : repo.Answers e)
    (h : forall mid, repo.step e = some mid -> Handles repo call calls rest mid) :
    Hears repo (call :: calls) rest := by
  constructor
  case answers =>
    rw [List.flatMap_cons, htold, List.singleton_append]
    exact ⟨hanswers, fun mid hstep => (h mid hstep).later.answers⟩
  case told =>
    rw [List.flatMap_cons, htold, List.singleton_append]
    intro repo' hrun
    rcases Runs.run_cons_some hrun with ⟨mid, hstep, hrest⟩
    have hmid := h mid hstep
    exact (hmid.later.told repo' hrest).cons hmid.records hmid.counter hmid.listening

theorem handles_undisturbed {repo mid : FRepo} {call : Call Write Int}
    {calls : List (Call Write Int)} {rest : List Int} (h : Hears mid calls rest)
    (hmid : FRepo.Undisturbed repo mid)
    (hok : forall query status, call = .onListenComplete query status ->
      status = kFWPResponseForActionStatusOk) : Handles repo call calls rest mid where
  later := h
  records := hmid.records ▸ List.suffix_refl _
  counter := hmid.counter
  listening := by
    rw [hmid.listening]
    exact ⟨fun hyes => ⟨hyes, hok⟩, And.left⟩

theorem writeStatus_ne {status : String} (h : status ≠ kFErrorWriteCanceled) :
    writeStatus status ≠ .canceled := by
  rw [writeStatus, if_neg h]
  split <;> simp

theorem hears_calls {calls : List (Call Write Int)} {repo : FRepo} (h : repo.Inv)
    {rest : List Int} (hpending : repo.pending = completed calls ++ rest)
    (huncancelled : forall block reason, .onComplete block kFErrorWriteCanceled reason ∉ calls) :
    Hears repo calls rest := by
  induction calls generalizing repo with
  | nil =>
      refine ⟨trivial, fun repo' hrun => ?_⟩
      cases hrun
      exact ⟨h, hpending, List.suffix_refl _, rfl, by simp⟩
  | cons call calls ih =>
      have hlater : forall block reason, .onComplete block kFErrorWriteCanceled reason ∉ calls :=
        fun block reason hmem => huncancelled block reason (List.mem_cons_of_mem _ hmem)
      have hsame : forall mid, FRepo.Undisturbed repo mid ->
          completed (call :: calls) = completed calls -> Hears mid calls rest := by
        intro mid hmid hcompleted
        refine ih hmid.inv ?_ hlater
        rw [FRepo.pending, hmid.records, ← hcompleted]
        exact hpending
      cases call with
      | onComplete block status reason =>
          have hstatus : writeStatus status ≠ .canceled := by
            apply writeStatus_ne
            rintro rfl
            exact huncancelled block reason List.mem_cons_self
          rcases FRepo.ackWrite_first h hpending hstatus with ⟨hanswers, hfirst⟩
          apply Hears.handled rfl hanswers
          intro mid hstep
          have hmid := hfirst mid hstep
          refine ⟨ih hmid.inv hmid.pending hlater, hmid.records, hmid.counter, ?_⟩
          rw [hmid.listening]
          simp
      | onListenComplete query status =>
          by_cases hok : status = kFWPResponseForActionStatusOk
          · have htold : told (.onListenComplete query status) = [.listenComplete] := if_pos hok
            apply Hears.handled htold trivial
            intro mid hstep
            have hmid := FRepo.listenComplete_undisturbed h hstep
            apply handles_undisturbed (hsame mid hmid rfl) hmid
            intro query' status' heq
            cases heq
            exact hok
          · have htold : told (.onListenComplete query status) = [.listenRevoked] := if_neg hok
            apply Hears.handled htold trivial
            intro mid hstep
            rcases FRepo.listenRevoked_step h hstep with ⟨hinv, hrecords, hcounter, hgone⟩
            have hmid : mid.pending = completed calls ++ rest := by
              rw [FRepo.pending, hrecords]
              exact hpending
            refine ⟨ih hinv hmid hlater, hrecords ▸ List.suffix_refl _, hcounter, ?_⟩
            rw [hgone]
            refine ⟨fun hno => absurd hno (by decide), ?_⟩
            exact fun hall => absurd (hall.right query status rfl) hok
      | onDataUpdate data =>
          apply Hears.handled (e := .onDataUpdate data) rfl trivial
          intro mid hstep
          have hmid := FRepo.onDataUpdate_undisturbed h hstep
          exact handles_undisturbed (hsame mid hmid rfl) hmid (by simp)
      | onDisconnectComplete block status reason =>
          exact (ih h hpending hlater).nothing rfl (by simp)
      | onConnect => exact (ih h hpending hlater).nothing rfl (by simp)
      | onDisconnect => exact (ih h hpending hlater).nothing rfl (by simp)

/-!
## The client keeps together
-/

/-- What the environment may do: no request of the repo, no error, and no cancelled write. -/
def Network : FPersistentConnection.Event Write Int -> Prop
  | .listen _ => False
  | .unlisten _ => False
  | .putData _ _ _ => False
  | .mergeData _ _ => False
  | .onDisconnectAction _ => False
  | .purgeOutstandingWrites => False
  | .onRequestError => False
  | .onResponse _ status _ => status ≠ kFErrorWriteCanceled
  | _ => True

/--
The server answers in order; answers that are held back are not overtaken, and
the writes are not purged while there are any.
-/
def Allowed (client : Client) : Event -> Prop
  | .connection e =>
      Network e ∧ client.connection.InOrder e ∧ client.connection.NotOvertaken e
  | .purgeOutstandingWrites => client.connection.putsToAck.isEmpty = true
  | _ => True

/-- A put carries a write that is pending. -/
def Carried (records : List FWriteRecord) (entry : Nat × FOutstandingPut Write Int) : Prop :=
  exists w, w ∈ records ∧ w.writeId = entry.2.onCompleteBlock ∧ w.toWrite = entry.2.data

structure Inv (client : Client) : Prop where
  repo : client.repo.Inv
  connection : client.connection.Inv
  restored : client.connection.Restored
  hashless : client.connection.Hashless
  uncancelled : client.connection.Uncancelled
  pending : client.repo.pending = client.connection.queue
  carried : forall entry, entry ∈ client.connection.puts ->
    Carried client.repo.serverSyncTree.pendingWriteTree.allWrites entry
  listening : client.repo.listening = true <-> [] ∈ client.connection.queries
  queries : forall query, query ∈ client.connection.queries -> query = []
  run : Runs.run FRepo.step FRepo.init client.trace = some client.repo
  answers : Runs.Guarded FRepo.step FRepo.Answers FRepo.init client.trace

theorem inv_init : init.Inv where
  repo := FRepo.inv_init
  connection := FPersistentConnection.inv_init
  restored := .of_offline FPersistentConnection.inv_init rfl
  hashless := fun _ hentry => absurd hentry List.not_mem_nil
  uncancelled := fun _ hput => absurd hput List.not_mem_nil
  pending := rfl
  carried := fun _ hentry => absurd hentry List.not_mem_nil
  listening := by decide
  queries := fun _ hquery => absurd hquery List.not_mem_nil
  run := rfl
  answers := trivial

structure Owned (client : Client) (own : List FRepo.Event)
    (request : FPersistentConnection.Event Write Int) (repo : FRepo) : Prop where
  inv : repo.Inv
  run : Runs.run FRepo.step client.repo own = some repo
  answers : Runs.Guarded FRepo.step FRepo.Answers client.repo own
  pending : repo.pending = client.connection.queue ++ request.issued
  carried : forall entry, entry ∈ client.connection.putsAfter request ->
    Carried repo.serverSyncTree.pendingWriteTree.allWrites entry
  listening : repo.listening = true <-> [] ∈ client.connection.queriesAfter request
  queries : forall query, query ∈ client.connection.queriesAfter request -> query = []

theorem carried_told {repo repo' : FRepo} (h : repo.Inv)
    {c : FPersistentConnection Write Int}
    (hpending : repo'.pending = c.queue)
    (hrecords : repo'.serverSyncTree.pendingWriteTree.allWrites <:+
      repo.serverSyncTree.pendingWriteTree.allWrites)
    {entry : Nat × FOutstandingPut Write Int} (hentry : entry ∈ c.puts)
    (hcarried : Carried repo.serverSyncTree.pendingWriteTree.allWrites entry) :
    Carried repo'.serverSyncTree.pendingWriteTree.allWrites entry := by
  have hblock : entry.2.onCompleteBlock ∈ repo'.pending := by
    rw [hpending]
    apply List.mem_append_right
    rw [FPersistentConnection.outstanding_eq]
    exact List.mem_map_of_mem (f := fun entry => entry.2.onCompleteBlock) hentry
  rcases List.mem_map.mp hblock with ⟨w', hw', hid'⟩
  rcases hcarried with ⟨w, hw, hid, hdata⟩
  have hsame := h.tree.writes.eq_of_writeId (hrecords.subset hw') hw (hid'.trans hid.symm)
  exact ⟨w', hw', hid', by rw [hsame]; exact hdata⟩

theorem asked {client : Client} (h : client.Inv) {own : List FRepo.Event}
    {request : FPersistentConnection.Event Write Int} {mid : FRepo}
    (howned : Owned client own request mid) (hallowed : client.connection.Allowed request)
    (horder : client.connection.InOrder request)
    (hreleased : client.connection.NotOvertaken request) (huncancelling : request.Uncancelling)
    (hplain : forall put, request.put = some put -> put.hash = none) :
    exists r, client.connection.step request = some r ∧
      Runs.Guarded FRepo.step FRepo.Answers mid (r.2.flatMap told) ∧
      forall repo', Runs.run FRepo.step mid (r.2.flatMap told) = some repo' ->
        Inv
          { repo := repo'
            connection := r.1
            trace := client.trace ++ (own ++ r.2.flatMap told) } := by
  rcases FPersistentConnection.queue_step h.connection h.restored h.hashless hallowed horder
    hreleased with ⟨r, hstep, hhandled, hqueue⟩
  rcases hhandled.tells h.uncancelled huncancelling with ⟨huncancelled, hcalls⟩
  have hhears := hears_calls howned.inv (howned.pending.trans hqueue.symm) hcalls
  refine ⟨r, hstep, hhears.answers, ?_⟩
  intro repo' hrun
  have htold := hhears.told repo' hrun
  have howns := howned.run
  constructor
  case repo => exact htold.inv
  case connection => exact hhandled.inv
  case restored => exact h.restored.moves h.connection hhandled.inv hhandled.moves horder
  case hashless => exact h.hashless.after hplain hhandled.settles
  case uncancelled => exact huncancelled
  case pending => exact htold.pending
  case carried =>
    intro entry hentry
    exact carried_told howned.inv htold.pending htold.records hentry
      (howned.carried entry (hhandled.settles.puts_subset hentry))
  case listening =>
    rw [htold.listening, howned.listening, hhandled.listened.kept]
    refine and_congr_right fun _ => ⟨fun hall status => hall [] status, ?_⟩
    intro hall query status hmem
    cases howned.queries query (hhandled.listened.known query status hmem)
    exact hall status hmem
  case queries =>
    intro query hquery
    exact howned.queries query ((hhandled.listened.kept query).mp hquery).left
  case run =>
    rw [Runs.run_append, h.run, Option.bind_some, Runs.run_append, howns]
    exact hrun
  case answers =>
    exact Runs.guarded_append h.answers h.run
      (Runs.guarded_append howned.answers howns hhears.answers)

/-- A step is the run of the repo over its events, with a connection that is left. -/
structure Advances (client : Client) (e : Event) (connection : FPersistentConnection Write Int) :
    Prop where
  answers : Runs.Guarded FRepo.step FRepo.Answers client.repo (client.events e)
  step : client.step e = (Runs.run FRepo.step client.repo (client.events e)).map fun repo' =>
    { repo := repo', connection := connection, trace := client.trace ++ client.events e }
  inv : forall repo', Runs.run FRepo.step client.repo (client.events e) = some repo' ->
    Inv { repo := repo', connection := connection, trace := client.trace ++ client.events e }

theorem step_asked {client : Client} (h : client.Inv) {e : Event}
    {request : FPersistentConnection.Event Write Int} {mid : FRepo}
    (hrequested : client.requested mid e = some request)
    (howned : Owned client e.own request mid) (hallowed : client.connection.Allowed request)
    (horder : client.connection.InOrder request)
    (hreleased : client.connection.NotOvertaken request) (huncancelling : request.Uncancelling)
    (hplain : forall put, request.put = some put -> put.hash = none) :
    exists connection, Advances client e connection := by
  rcases asked h howned hallowed horder hreleased huncancelling hplain with
    ⟨r, hstep, hanswers, hinv⟩
  have hevents : client.events e = e.own ++ r.2.flatMap told := by
    rw [events, howned.run, Option.bind_some, hrequested, Option.bind_some, hstep]
    rfl
  refine ⟨r.1, ?_⟩
  constructor
  case answers =>
    rw [hevents]
    exact Runs.guarded_append howned.answers howned.run hanswers
  case step =>
    rw [hevents, Runs.run_append, Client.step, howned.run, Option.bind_some, hrequested]
    exact congrArg (Option.bind · _) hstep
  case inv =>
    rw [hevents, Runs.run_append, howned.run]
    exact hinv

theorem step_kept {client : Client} (h : client.Inv) {e : Event} {mid : FRepo}
    (hrequested : client.requested mid e = none)
    (hrun : Runs.run FRepo.step client.repo e.own = some mid)
    (hanswers : Runs.Guarded FRepo.step FRepo.Answers client.repo e.own)
    (hmid : FRepo.Undisturbed client.repo mid) :
    exists connection, Advances client e connection := by
  have hevents : client.events e = e.own := by
    rw [events, hrun, Option.bind_some, hrequested]
    exact List.append_nil e.own
  refine ⟨client.connection, ?_⟩
  constructor
  case answers =>
    rw [hevents]
    exact hanswers
  case step => rw [hevents, step, hrun, Option.bind_some, hrequested, Option.map_some]
  case inv =>
    rw [hevents, hrun]
    intro repo' heq
    cases heq
    exact
      { h with
        repo := hmid.inv
        pending := by
          rw [← h.pending, FRepo.pending, hmid.records]
          rfl
        carried := by
          rw [hmid.records]
          exact h.carried
        listening := by
          rw [hmid.listening]
          exact h.listening
        run := by
          rw [Runs.run_append, h.run]
          exact hrun
        answers := Runs.guarded_append h.answers h.run hanswers }

theorem step_set {client : Client} (h : client.Inv) (write : Write) :
    exists connection, Advances client (.set write) connection := by
  rcases FSyncTree.applyUserOverwriteAtPath_spec h.repo.tree write h.repo.counter with
    ⟨tree', htree', _, _, hall, _⟩
  rcases FRepo.set_spec h.repo write with ⟨mid, hstep, hspec⟩
  have heq : mid =
      { serverSyncTree := tree', writeIdCounter := client.repo.writeIdCounter + 1 } := by
    rw [FRepo.set, htree'] at hstep
    exact (Option.some.inj hstep).symm
  have hrecords : mid.serverSyncTree.pendingWriteTree.allWrites =
      client.repo.serverSyncTree.pendingWriteTree.allWrites ++
        [{ toWrite := write, writeId := client.repo.writeIdCounter, visible := true }] := by
    rw [heq]
    exact hall
  have hlistening := FRepo.listening_of_operation (e := .set write) h.repo trivial rfl hstep
  have hput : forall put, FPersistentConnection.Event.put
      (.putData write none client.repo.writeIdCounter) = some put -> put.hash = none := by
    intro put hput
    cases hput
    rfl
  have hrequested : client.requested mid (.set write) =
      some (.putData write none client.repo.writeIdCounter) := rfl
  apply step_asked h hrequested _ trivial trivial trivial trivial hput
  constructor
  case inv => exact hspec.inv
  case run => exact congrArg (Option.bind · fun s => some s) hstep
  case answers => exact ⟨trivial, fun _ _ => trivial⟩
  case pending =>
    rw [FRepo.pending, hrecords, List.map_append, ← FRepo.pending, h.pending]
    rfl
  case carried =>
    intro entry hentry
    rw [hrecords]
    rcases List.mem_append.mp hentry with hentry | hentry
    · rcases h.carried entry hentry with ⟨w, hw, hid, hdata⟩
      exact ⟨w, List.mem_append_left _ hw, hid, hdata⟩
    · cases List.mem_singleton.mp hentry
      exact ⟨_, List.mem_append_right _ List.mem_cons_self, rfl, rfl⟩
  case listening =>
    rw [hlistening]
    exact h.listening
  case queries => exact h.queries

theorem step_addEventRegistration {client : Client} (h : client.Inv) (handle : Nat) :
    exists connection, Advances client (.addEventRegistration handle) connection := by
  have hkeeps := FSyncTree.addEventRegistration_keeps h.repo.tree handle
  have hinv := h.repo.withTree hkeeps.inv h.repo.counter
  have hanswers : Runs.Guarded FRepo.step FRepo.Answers client.repo
      (Event.addEventRegistration handle).own := ⟨trivial, fun _ _ => trivial⟩
  cases hview : client.repo.listening with
  | true =>
      have hnone : client.repo.serverSyncTree.view.isNone = false := by
        rw [← Option.not_isSome]
        exact congrArg not hview
      apply step_kept h _ rfl hanswers
      · exact { inv := hinv, records := rfl, counter := rfl, listening := hview.symm }
      · rw [requested, hnone]
        rfl
  | false =>
      have hnone : client.repo.serverSyncTree.view.isNone = true := by
        rw [← Option.not_isSome]
        exact congrArg not hview
      have hfree : [] ∉ client.connection.queries := by
        rw [← h.listening, hview]
        decide
      have hrequested : client.requested
          (client.repo.withTree (client.repo.serverSyncTree.addEventRegistration handle))
          (.addEventRegistration handle) = some (.listen []) := by
        rw [requested, hnone]
        rfl
      apply step_asked h hrequested _ hfree trivial trivial trivial (fun put hput => by cases hput)
      constructor
      case inv => exact hinv
      case run => rfl
      case answers => exact hanswers
      case pending => exact h.pending.trans (List.append_nil _).symm
      case carried =>
        intro entry hentry
        rw [FPersistentConnection.putsAfter_of_none rfl] at hentry
        exact h.carried entry hentry
      case listening =>
        refine ⟨fun _ => List.mem_append_right _ List.mem_cons_self, fun _ => rfl⟩
      case queries =>
        intro query hquery
        rcases List.mem_append.mp hquery with hquery | hquery
        · exact h.queries query hquery
        · exact List.mem_singleton.mp hquery

theorem step_removeEventRegistration {client : Client} (h : client.Inv) (handle : Nat) :
    exists connection, Advances client (.removeEventRegistration handle) connection := by
  have hkeeps := FSyncTree.removeEventRegistration_keeps h.repo.tree (some handle)
  have hwrites := FSyncTree.removeEventRegistration_writes client.repo.serverSyncTree (some handle)
  let mid := client.repo.withTree
    (client.repo.serverSyncTree.removeEventRegistration (some handle))
  have hinv : mid.Inv := h.repo.withTree hkeeps.inv (by rw [hwrites]; exact h.repo.counter)
  have hrecords : mid.serverSyncTree.pendingWriteTree.allWrites =
      client.repo.serverSyncTree.pendingWriteTree.allWrites :=
    congrArg FWriteTree.allWrites hwrites
  have hanswers : Runs.Guarded FRepo.step FRepo.Answers client.repo
      (Event.removeEventRegistration handle).own := ⟨trivial, fun _ _ => trivial⟩
  have hrequested : client.requested mid (.removeEventRegistration handle) =
      if client.repo.listening && !mid.listening then some (.unlisten []) else none := by
    rw [requested, FRepo.listening, FRepo.listening, Option.not_isSome]
  by_cases hlast : (client.repo.listening && !mid.listening) = true
  · rw [if_pos hlast] at hrequested
    rw [Bool.and_eq_true, Bool.not_eq_true'] at hlast
    apply step_asked h hrequested _ trivial trivial trivial trivial (fun put hput => by cases hput)
    constructor
    case inv => exact hinv
    case run => rfl
    case answers => exact hanswers
    case pending =>
      rw [FRepo.pending, hrecords]
      exact h.pending.trans (List.append_nil _).symm
    case carried =>
      intro entry hentry
      rw [FPersistentConnection.putsAfter_of_none rfl] at hentry
      rw [hrecords]
      exact h.carried entry hentry
    case listening =>
      rw [hlast.right]
      refine ⟨fun hno => absurd hno (by decide), fun hmem => ?_⟩
      exact absurd rfl (bne_iff_ne.mp (List.mem_filter.mp hmem).right)
    case queries =>
      exact fun query hquery => h.queries query (List.mem_filter.mp hquery).left
  · rw [if_neg hlast] at hrequested
    apply step_kept h hrequested rfl hanswers
    refine { inv := hinv, records := hrecords, counter := rfl, listening := ?_ }
    cases hbefore : client.repo.listening with
    | true => simpa [hbefore] using hlast
    | false =>
        have hview : client.repo.serverSyncTree.view = none := by
          simpa [FRepo.listening] using hbefore
        show (client.repo.serverSyncTree.removeEventRegistration (some handle)).view.isSome = false
        simp [FSyncTree.removeEventRegistration, hview]

/-- Cancelled writes are gone from the repo already. -/
theorem run_cancelled (repo : FRepo) {calls : List (Call Write Int)}
    (h : forall call, call ∈ calls -> (exists block reason,
      call = .onComplete block kFErrorWriteCanceled reason) ∨ told call = []) :
    Runs.run FRepo.step repo (calls.flatMap told) = some repo ∧
      Runs.Guarded FRepo.step FRepo.Answers repo (calls.flatMap told) := by
  induction calls with
  | nil => exact ⟨rfl, trivial⟩
  | cons call calls ih =>
      have hrest := ih fun call hcall => h call (List.mem_cons_of_mem _ hcall)
      rw [List.flatMap_cons]
      rcases h call List.mem_cons_self with ⟨block, reason, rfl⟩ | hnothing
      · refine ⟨hrest.left, trivial, ?_⟩
        intro repo' hstep
        cases hstep
        exact hrest.right
      · rw [hnothing]
        exact hrest

theorem purge_calls {connection : FPersistentConnection Write Int}
    (hreleased : connection.putsToAck.isEmpty = true) (call : Call Write Int)
    (hcall : call ∈ connection.purgeOutstandingWrites.2) :
    (exists block reason, call = .onComplete block kFErrorWriteCanceled reason) ∨
      told call = [] := by
  simp only [FPersistentConnection.purgeOutstandingWrites, FPersistentConnection.ackPuts,
    List.isEmpty_iff.mp hreleased, List.map_nil, List.nil_append, List.mem_append,
    List.mem_filterMap, List.mem_map, Option.map_eq_some_iff] at hcall
  rcases hcall with ⟨_, _, put, _, rfl⟩ | ⟨tuple, _, rfl⟩
  · exact Or.inl ⟨_, _, rfl⟩
  · exact Or.inr rfl

theorem step_purgeOutstandingWrites {client : Client} (h : client.Inv)
    (hreleased : client.connection.putsToAck.isEmpty = true) :
    exists connection repo', Advances client .purgeOutstandingWrites connection ∧
      Runs.run FRepo.step client.repo (client.events .purgeOutstandingWrites) = some repo' := by
  rcases FSyncTree.removeAllWrites_spec h.repo.tree with ⟨tree', htree', hkeeps, hwrites⟩
  let mid := client.repo.withTree tree'
  have hstep : client.repo.step .purgeOutstandingWrites = some mid := by
    rw [FRepo.step, htree']
    rfl
  have hinv : mid.Inv := h.repo.withTree hkeeps.inv (by rw [hwrites]; exact h.repo.counter)
  have hlistening := FRepo.listening_of_operation (e := .purgeOutstandingWrites) h.repo trivial rfl
    hstep
  have hhandled := FPersistentConnection.purgeOutstandingWrites_spec h.connection
  have hrun : Runs.run FRepo.step client.repo Event.purgeOutstandingWrites.own = some mid :=
    congrArg (Option.bind · fun s => some s) hstep
  rcases run_cancelled mid (purge_calls hreleased) with
    ⟨hcancelled, hguarded⟩
  have hevents : client.events .purgeOutstandingWrites = Event.purgeOutstandingWrites.own ++
      client.connection.purgeOutstandingWrites.2.flatMap told := by
    rw [events, hrun]
    rfl
  have hall : Runs.run FRepo.step client.repo (client.events .purgeOutstandingWrites) =
      some mid := by
    rw [hevents, Runs.run_append, hrun]
    exact hcancelled
  refine ⟨client.connection.purgeOutstandingWrites.1, mid, ?_, hall⟩
  constructor
  case answers =>
    rw [hevents]
    exact Runs.guarded_append ⟨trivial, fun _ _ => trivial⟩ hrun hguarded
  case step =>
    rw [hall, hevents, step, hrun, Option.bind_some]
    exact congrArg (Option.map _) hcancelled
  case inv =>
    intro repo' hrepo'
    rw [hall] at hrepo'
    cases hrepo'
    constructor
    case repo => exact hinv
    case connection => exact hhandled.inv
    case restored => exact h.restored.moves h.connection hhandled.inv hhandled.moves trivial
    case hashless => exact fun _ hentry => absurd hentry List.not_mem_nil
    case uncancelled => exact fun _ hput => absurd hput List.not_mem_nil
    case pending =>
      show tree'.pendingWriteTree.allWrites.map _ = []
      rw [hwrites]
      rfl
    case carried => exact fun _ hentry => absurd hentry List.not_mem_nil
    case listening =>
      rw [hlistening]
      exact h.listening
    case queries => exact h.queries
    case run =>
      rw [Runs.run_append, h.run]
      exact hall
    case answers =>
      rw [hevents]
      exact Runs.guarded_append h.answers h.run
        (Runs.guarded_append ⟨trivial, fun _ _ => trivial⟩ hrun hguarded)

theorem step_connection {client : Client} (h : client.Inv)
    {e : FPersistentConnection.Event Write Int} (hallowed : client.Allowed (.connection e)) :
    exists connection, Advances client (.connection e) connection := by
  rcases hallowed with ⟨hnetwork, horder, hreleased⟩
  have hfacts : e.put = none ∧ client.connection.queriesAfter e = client.connection.queries ∧
      client.connection.Allowed e ∧ e.Uncancelling := by
    cases e with
    | listen _ => exact absurd hnetwork id
    | unlisten _ => exact absurd hnetwork id
    | putData _ _ _ => exact absurd hnetwork id
    | mergeData _ _ => exact absurd hnetwork id
    | purgeOutstandingWrites => exact absurd hnetwork id
    | onRequestError => exact absurd hnetwork id
    | onResponse _ _ _ => exact ⟨rfl, rfl, trivial, hnetwork⟩
    | _ => exact ⟨rfl, rfl, trivial, trivial⟩
  rcases hfacts with ⟨hput, hqueries, hallowed, huncancelling⟩
  have hnone : forall put, e.put = some put -> put.hash = none := by
    intro put hsome
    rw [hput] at hsome
    cases hsome
  have hrequested : client.requested client.repo (.connection e) = some e := rfl
  apply step_asked h hrequested _ hallowed horder hreleased huncancelling hnone
  constructor
  case inv => exact h.repo
  case run => rfl
  case answers => trivial
  case pending =>
    rw [FPersistentConnection.issued_of_none hput, List.append_nil]
    exact h.pending
  case carried =>
    rw [FPersistentConnection.putsAfter_of_none hput]
    exact h.carried
  case listening =>
    rw [hqueries]
    exact h.listening
  case queries =>
    rw [hqueries]
    exact h.queries

theorem step_advances {client : Client} (h : client.Inv) {e : Event}
    (hallowed : client.Allowed e) : exists connection, Advances client e connection := by
  cases e with
  | set write => exact step_set h write
  | purgeOutstandingWrites =>
      rcases step_purgeOutstandingWrites h hallowed with ⟨connection, _, hadvances, _⟩
      exact ⟨connection, hadvances⟩
  | addEventRegistration handle => exact step_addEventRegistration h handle
  | removeEventRegistration handle => exact step_removeEventRegistration h handle
  | connection e => exact step_connection h hallowed

theorem step_spec {client client' : Client} (h : client.Inv) {e : Event}
    (hallowed : client.Allowed e) (hstep : client.step e = some client') : client'.Inv := by
  rcases step_advances h hallowed with ⟨connection, hadvances⟩
  rw [hadvances.step] at hstep
  rcases Option.map_eq_some_iff.mp hstep with ⟨repo', hrun, rfl⟩
  exact hadvances.inv repo' hrun

/-!
## Runs of the client
-/

instance Network.decidable (e : FPersistentConnection.Event Write Int) :
    Decidable (Network e) := by
  cases e <;> unfold Network <;> infer_instance

instance Allowed.decidable (client : Client) (e : Event) : Decidable (client.Allowed e) := by
  cases e <;> unfold Allowed <;> infer_instance

theorem always_inv {es : List Event} (hes : Runs.Guarded step Allowed init es) :
    Runs.Always step Inv init es :=
  (Runs.always_of_guarded (C := fun _ => True)
    (fun _ _ _ h _ hallowed hstep _ => step_spec h hallowed hstep) inv_init
    (Runs.always_iff.mpr fun _ _ _ _ _ => trivial) hes).imp fun _ h => h.left

theorem inv_of_run {es : List Event} {client : Client}
    (hes : Runs.Guarded step Allowed init es) (h : Runs.run step init es = some client) :
    client.Inv :=
  (always_inv hes).last h

/--
In a step, the server has sent to the repo what it accepts, and no write erases
below a value that the server has sent.
-/
def ServedSent (client : Client) (e : Event) : Prop :=
  Runs.Guarded FRepo.step FRepo.ArrivesSent client.repo (client.events e) ∧
    Runs.Always FRepo.step FRepo.ClearSent client.repo (client.events e)

instance ServedSent.decidable (client : Client) (e : Event) : Decidable (client.ServedSent e) :=
  inferInstanceAs (Decidable (Runs.Guarded FRepo.step FRepo.ArrivesSent _ _ ∧
    Runs.Always FRepo.step FRepo.ClearSent _ _))

theorem step_served {client : Client} (h : client.Inv) (hshown : client.repo.ShownSent)
    {e : Event} (hallowed : client.Allowed e) (hserved : client.ServedSent e) :
    exists client', client.step e = some client' ∧ client'.Inv ∧ client'.repo.ShownSent := by
  rcases step_advances h hallowed with ⟨connection, hadvances⟩
  have halong := FRepo.along_shownSent hshown (hadvances.answers.and hserved.left) hserved.right
  rcases (Runs.along_iff.mp halong).left with ⟨repo', hrun⟩
  refine ⟨_, ?_, hadvances.inv repo' hrun, (halong.last hrun).left⟩
  rw [hadvances.step, hrun, Option.map_some]

structure Refines (client : Client) : Prop where
  run : Runs.run FRepo.step FRepo.init client.trace = some client.repo
  answers : Runs.Guarded FRepo.step FRepo.Answers FRepo.init client.trace
  pending : client.repo.pending = client.connection.held ++ client.connection.outstanding
  carried : forall entry, entry ∈ client.connection.outstandingPuts ->
    Carried client.repo.serverSyncTree.pendingWriteTree.allWrites entry
  upToDate : client.repo.UpToDate

def titleRun : List Event :=
  [.connection (.resumeForReason FPersistentConnection.kFInterruptReasonWaitingForOpen),
    .connection .retry, .connection (.fetchedToken 1 (.token none)), .connection .onHandshake,
    .addEventRegistration 0, .set FRepo.titleWrite,
    .connection (.onDataPush (.dataUpdate FRepo.titleWrite)),
    .connection (.onResponse 3 "ok" none)]

theorem ackWrite_unknown {repo : FRepo} (hpending : repo.pending = []) (writeId : Int)
    {status : WriteStatus} (hstatus : status ≠ .canceled) :
    repo.step (.ackWrite writeId status) = none := by
  have hnone : repo.serverSyncTree.pendingWriteTree.writeForId writeId = none := by
    rw [FWriteTree.writeForId, List.map_eq_nil_iff.mp hpending]
    rfl
  have hack : forall revert,
      repo.serverSyncTree.ackUserWriteWithWriteId writeId revert = none := by
    intro revert
    rw [FSyncTree.ackUserWriteWithWriteId, hnone]
    rfl
  cases status with
  | canceled => exact absurd rfl hstatus
  | ok =>
      rw [FRepo.step, FRepo.ackWrite, hack]
      rfl
  | error status =>
      rw [FRepo.step, FRepo.ackWrite, hack]
      rfl

theorem purge_fails {client : Client} (h : client.Inv) (hheld : client.connection.putsToAck ≠ []) :
    client.step .purgeOutstandingWrites = none := by
  rcases FSyncTree.removeAllWrites_spec h.repo.tree with ⟨tree', htree', _, hwrites⟩
  have hpending : (client.repo.withTree tree').pending = [] := by
    show tree'.pendingWriteTree.allWrites.map _ = []
    rw [hwrites]
    rfl
  have hrun : Runs.run FRepo.step client.repo Event.purgeOutstandingWrites.own =
      some (client.repo.withTree tree') := by
    rw [Event.own, Runs.run_cons, FRepo.step, htree']
    rfl
  cases hacks : client.connection.putsToAck with
  | nil => exact absurd hacks hheld
  | cons put acks =>
      have hstatus : writeStatus put.status ≠ .canceled :=
        writeStatus_ne (h.uncancelled put (by rw [hacks]; exact List.mem_cons_self))
      have hfirst : exists calls, client.connection.purgeOutstandingWrites.2 =
          .onComplete put.block put.status put.errorReason :: calls := by
        rw [FPersistentConnection.purgeOutstandingWrites, FPersistentConnection.ackPuts, hacks]
        exact ⟨_, rfl⟩
      rcases hfirst with ⟨calls, hcalls⟩
      have hfails : Runs.run FRepo.step (client.repo.withTree tree')
          (client.connection.purgeOutstandingWrites.2.flatMap told) = none := by
        rw [hcalls, List.flatMap_cons, told, List.singleton_append, Runs.run_cons,
          ackWrite_unknown hpending put.block hstatus]
        rfl
      rw [step, hrun, Option.bind_some]
      exact congrArg (Option.map _) hfails

/--
Purging the writes fails an assertion exactly while an answer is held back: the
repo forgets the writes first, and the connection then calls the block.
-/
theorem purge_fails_iff_held {es : List Event} {client : Client}
    (hes : Runs.Guarded step Allowed init es) (hrun : Runs.run step init es = some client) :
    client.step .purgeOutstandingWrites = none <-> client.connection.putsToAck ≠ [] := by
  have h := inv_of_run hes hrun
  constructor
  · intro hfails hnone
    rcases step_purgeOutstandingWrites h (List.isEmpty_iff.mpr hnone) with
      ⟨connection, repo', hadvances, hrun'⟩
    have hstep := hadvances.step
    rw [hrun', hfails] at hstep
    cases hstep
  · exact purge_fails h

theorem purge_fails_iff_held_title :
    exists client, Runs.run step init titleRun = some client ∧
      client.step .purgeOutstandingWrites = none := by
  have hes : Runs.Guarded step Allowed init titleRun := by decide +kernel
  have hsome : (Runs.run step init titleRun).any
      (fun client => !client.connection.putsToAck.isEmpty) = true := by decide +kernel
  rcases (Option.any_eq_true _ _).mp hsome with ⟨client, hrun, hheld⟩
  refine ⟨client, hrun, (purge_fails_iff_held hes hrun).mpr fun hnil => ?_⟩
  rw [hnil] at hheld
  cases hheld

/-!
## At rest
-/

/-- The state is restored, nothing waits for an answer, and none is held back. -/
def AtRest (client : Client) : Prop :=
  client.connection.canSendWrites = true ∧ client.connection.requestCBHash.isEmpty = true ∧
    client.connection.putsToAck.isEmpty = true

instance AtRest.decidable (client : Client) : Decidable client.AtRest :=
  inferInstanceAs (Decidable (_ ∧ _ ∧ _))

theorem Inv.nothing_pending {client : Client} (h : client.Inv) (hrest : client.AtRest) :
    client.repo.serverSyncTree.pendingWriteTree.allWrites = [] := by
  rcases hrest with ⟨hconnected, hwaiting, hheld⟩
  have hstate : client.connection.connectionState = .connected := by
    simpa [FPersistentConnection.canSendWrites] using hconnected
  have hnone : client.connection.putsWaiting = [] := by
    rw [FPersistentConnection.putsWaiting, FPersistentConnection.waiting,
      List.isEmpty_iff.mp hwaiting]
    rfl
  have hputs : client.connection.outstandingPuts = [] := by
    cases h.restored.stage with
    | offline hoffline => simp [FPersistentConnection.connected, hstate] at hoffline
    | pending _ hpending => simp [hstate] at hpending
    | done _ _ hkeys =>
        rw [hnone] at hkeys
        exact List.map_eq_nil_iff.mp (List.suffix_nil.mp hkeys)
  have hpending := h.pending
  rw [FPersistentConnection.queue, FPersistentConnection.held, FPersistentConnection.outstanding,
    List.isEmpty_iff.mp hheld, hputs] at hpending
  exact List.map_eq_nil_iff.mp hpending

def acceptedRun : List Event :=
  titleRun ++ [.connection (.onResponse 2 "ok" none), .connection (.onResponse 1 "ok" none)]

end Client

end Firebase
end MyMovies
