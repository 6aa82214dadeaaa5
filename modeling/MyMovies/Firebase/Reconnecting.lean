import MyMovies.Firebase.SentRequests

/-!
# Whatever the network does

The connection can be lost, interrupted and opened again at any time, and answers
can come late or never.  No assertion fails on the way, the count of the listens
that are not answered stays true, and no write is lost or answered twice.
-/

namespace MyMovies
namespace Firebase

open Foundation

namespace FPersistentConnection

variable {Data Block : Type} {c c' : FPersistentConnection Data Block}

/-!
## Where the connection stands
-/

inductive Phase (c : FPersistentConnection Data Block) : Prop where
  | disconnected (hstate : c.connectionState = .disconnected) (hrealtime : c.realtime = none)
      (hwaiting : c.requestCBHash = [])
      (hscheduled : c.scheduledRetry = true -> c.interruptReasons = [])
  | gettingToken (hstate : c.connectionState = .gettingToken) (hrealtime : c.realtime = none)
      (hwaiting : c.requestCBHash = []) (hscheduled : c.scheduledRetry = false)
      (hresumed : c.interruptReasons = [])
  | connecting (hstate : c.connectionState = .connecting)
      (hrealtime : c.realtime = some { ready := false, sent := [] })
      (hwaiting : c.requestCBHash = []) (hscheduled : c.scheduledRetry = false)
      (hresumed : c.interruptReasons = []) (hfetched : c.currentFetchTokenAttempt ∉ c.fetches)
  | online (hstate : c.connected = true) (hready : c.Ready) (hscheduled : c.scheduledRetry = false)
      (hresumed : c.interruptReasons = []) (hfetched : c.currentFetchTokenAttempt ∉ c.fetches)

/-- An answer completes the put that was sent, if that is still outstanding. -/
def Blocks (c : FPersistentConnection Data Block) : Prop :=
  forall index block, .put index block ∈ c.waiting -> index < c.putCounter ∧
    forall found, c.putCallback index = some found -> found = .put index block

structure Inv (c : FPersistentConnection Data Block) : Prop where
  counted : c.Counted
  blocks : c.Blocks
  phase : c.Phase

theorem counted_init : (init : FPersistentConnection Data Block).Counted where
  increasing := Numbered.increasing_nil
  below := Numbered.below_nil _
  unacked := rfl
  indices := Numbered.increasing_nil
  indexed := Numbered.below_nil _

theorem inv_init : (init : FPersistentConnection Data Block).Inv where
  counted := counted_init
  blocks := fun _ _ h => absurd h List.not_mem_nil
  phase := Phase.disconnected rfl rfl rfl (fun h => by cases h)

theorem connected_eq (c : FPersistentConnection Data Block) :
    c.connected = true <->
      c.connectionState = .authenticating ∨ c.connectionState = .connected := by
  simp [connected]

/-- Nothing is sent, and no answer awaited, unless the connection is ready. -/
theorem Inv.online (h : c.Inv) (hconnected : c.connected = true) :
    c.Ready ∧ c.scheduledRetry = false ∧ c.interruptReasons = [] ∧
      c.currentFetchTokenAttempt ∉ c.fetches := by
  cases h.phase with
  | disconnected hstate => simp [connected, hstate] at hconnected
  | gettingToken hstate => simp [connected, hstate] at hconnected
  | connecting hstate => simp [connected, hstate] at hconnected
  | online _ hready hscheduled hresumed hfetched => exact ⟨hready, hscheduled, hresumed, hfetched⟩

theorem Inv.connected_of_waiting (h : c.Inv) (hwaiting : c.requestCBHash ≠ []) :
    c.connected = true := by
  cases h.phase with
  | disconnected _ _ hnone => exact absurd hnone hwaiting
  | gettingToken _ _ hnone => exact absurd hnone hwaiting
  | connecting _ _ hnone => exact absurd hnone hwaiting
  | online hstate => exact hstate

theorem Inv.resumed_of_scheduled (h : c.Inv) (hscheduled : c.scheduledRetry = true) :
    c.connectionState = .disconnected ∧ c.realtime = none ∧ c.requestCBHash = [] ∧
      c.interruptReasons = [] := by
  cases h.phase with
  | disconnected hstate hrealtime hwaiting hresumed =>
      exact ⟨hstate, hrealtime, hwaiting, hresumed hscheduled⟩
  | gettingToken _ _ _ hnot =>
      rw [hnot] at hscheduled
      cases hscheduled
  | connecting _ _ _ hnot =>
      rw [hnot] at hscheduled
      cases hscheduled
  | online _ _ hnot =>
      rw [hnot] at hscheduled
      cases hscheduled

theorem Inv.of_disconnected (h : c.Inv) (hstate : c.connectionState = .disconnected) :
    c.realtime = none ∧ c.requestCBHash = [] := by
  cases h.phase with
  | disconnected _ hrealtime hwaiting => exact ⟨hrealtime, hwaiting⟩
  | gettingToken hnot => simp [hnot] at hstate
  | connecting hnot => simp [hnot] at hstate
  | online hnot => simp [connected, hstate] at hnot

theorem putCallback_lt (h : c.Counted) {index : Nat} {callback : RequestCallback Block}
    (hfound : c.putCallback index = some callback) : index < c.putCounter := by
  rcases Option.map_eq_some_iff.mp hfound with ⟨put, hput, _⟩
  exact h.indexed index (List.mem_map.mpr ⟨_, Numbered.mem_of_lookup hput, rfl⟩)

theorem Blocks.sent (h : c.Blocks) (hcounted : c.Counted) {added : List (RequestCallback Block)}
    (hsent : Sent c added c') : c'.Blocks := by
  intro index block hmem
  have hcounter : c'.putCounter = c.putCounter := by rw [hsent.frame]
  rw [hcounter, putCallback_of_puts hsent.puts]
  rw [hsent.waiting] at hmem
  rcases List.mem_append.mp hmem with hmem | hmem
  · exact h index block hmem
  · have hfound := hsent.blocks index block hmem
    refine ⟨putCallback_lt hcounted hfound, ?_⟩
    intro found heq
    rw [hfound] at heq
    cases heq
    rfl

theorem Blocks.sublist (h : c.Blocks) (hcounted : c.Counted)
    (hputs : c'.outstandingPuts.Sublist c.outstandingPuts)
    (hhash : c'.requestCBHash.Sublist c.requestCBHash) (hcounter : c'.putCounter = c.putCounter) :
    c'.Blocks := by
  intro index block hmem
  rcases h index block ((hhash.map Prod.snd).subset hmem) with ⟨hlt, hfound⟩
  refine ⟨by rw [hcounter]; exact hlt, ?_⟩
  intro found heq
  rcases Option.map_eq_some_iff.mp heq with ⟨put, hput, rfl⟩
  apply hfound
  rw [putCallback, outstandingPut, Numbered.lookup_of_sublist hcounted.indices hputs hput]
  rfl

theorem Inv.sent (h : c.Inv) (hconnected : c.connected = true)
    {added : List (RequestCallback Block)} (hsent : Sent c added c') : c'.Inv := by
  rcases h.online hconnected with ⟨_, hscheduled, hresumed, hfetched⟩
  refine ⟨hsent.counted h.counted, h.blocks.sent h.counted hsent,
    Phase.online ?_ hsent.ready ?_ ?_ ?_⟩
  · rw [hsent.frame]
    exact hconnected
  · rw [hsent.frame]
    exact hscheduled
  · rw [hsent.frame]
    exact hresumed
  · rw [hsent.frame]
    exact hfetched

/-!
## What becomes of the writes
-/

def held (c : FPersistentConnection Data Block) : List Block :=
  c.putsToAck.map FTupleCallbackStatus.block

def outstanding (c : FPersistentConnection Data Block) : List Block :=
  c.outstandingPuts.map fun entry => entry.2.onCompleteBlock

def completed (calls : List (Call Data Block)) : List Block :=
  calls.filterMap fun call =>
    match call with
    | .onComplete block _ _ => some block
    | _ => none

/-- The outstanding puts, as they were issued. -/
def puts (c : FPersistentConnection Data Block) : List (Nat × FOutstandingPut Data Block) :=
  c.outstandingPuts.map unsent

def Event.put : Event Data Block -> Option (FOutstandingPut Data Block)
  | .putData data hash onComplete => some ⟨.put, data, hash, onComplete, false⟩
  | .mergeData data onComplete => some ⟨.merge, data, none, onComplete, false⟩
  | _ => none

def Event.issued (e : Event Data Block) : List Block :=
  e.put.toList.map FOutstandingPut.onCompleteBlock

/-- The puts with the one that an event issues. -/
def putsAfter (c : FPersistentConnection Data Block) (e : Event Data Block) :
    List (Nat × FOutstandingPut Data Block) :=
  c.puts ++ e.put.toList.map fun put => (c.putCounter, put)

theorem putsAfter_of_none {e : Event Data Block} (he : e.put = none) : c.putsAfter e = c.puts := by
  rw [putsAfter, he]
  exact List.append_nil _

theorem issued_of_none {e : Event Data Block} (he : e.put = none) : e.issued = [] := by
  rw [Event.issued, he]
  rfl

theorem outstanding_eq (c : FPersistentConnection Data Block) :
    c.outstanding = c.puts.map fun entry => entry.2.onCompleteBlock := by
  rw [outstanding, puts, List.map_map]
  rfl

/-- A put is taken out, and its block called or its answer held back. -/
structure Answered (c : FPersistentConnection Data Block) (index : Nat)
    (put : FOutstandingPut Data Block)
    (r : FPersistentConnection Data Block × List (Call Data Block)) : Prop where
  puts : exists front back, c.outstandingPuts = front ++ (index, put) :: back ∧
    r.1.outstandingPuts = front ++ back
  calls : (c.unackedListensCount = 0 ∧ completed r.2 = [put.onCompleteBlock] ∧
      r.1.held = c.held) ∨
    (c.unackedListensCount ≠ 0 ∧ completed r.2 = [] ∧
      r.1.held = c.held ++ [put.onCompleteBlock])

/-- All that an event does to the writes. -/
inductive Settles (c : FPersistentConnection Data Block) (e : Event Data Block)
    (r : FPersistentConnection Data Block × List (Call Data Block)) : Prop where
  | kept (hcalls : completed r.2 = []) (hheld : r.1.held = c.held)
      (hputs : r.1.puts = c.putsAfter e)
  | answered (rn : Nat) (status : String) (errorReason : Option String) (index : Nat)
      (put : FOutstandingPut Data Block) (he : e = .onResponse rn status errorReason)
      (hcallback : c.callbackFor rn = some (.put index put.onCompleteBlock))
      (hput : c.outstandingPut index = some put) (hanswered : Answered c index put r)
  | acked (hissued : e.issued = []) (hcalls : completed r.2 = c.held) (hheld : r.1.held = [])
      (hout : r.1.outstandingPuts = c.outstandingPuts)
  | dropped (hissued : e.issued = [])
      (hcalls : completed r.2 = (c.outstandingPuts.filter isSentTransaction).map fun entry =>
        entry.2.onCompleteBlock)
      (hheld : r.1.held = c.held)
      (hout : r.1.outstandingPuts = c.outstandingPuts.filter fun entry => !isSentTransaction entry)
  | purged (hissued : e.issued = []) (hcalls : completed r.2 = c.held ++ c.outstanding)
      (hheld : r.1.held = []) (hout : r.1.outstandingPuts = [])

def queries (c : FPersistentConnection Data Block) : List (List String) :=
  c.listens.map FOutstandingQuery.query

/-- The queries that are listened to when the repo has had its say. -/
def queriesAfter (c : FPersistentConnection Data Block) : Event Data Block -> List (List String)
  | .listen query => c.queries ++ [query]
  | .unlisten query => c.queries.filter (· != query)
  | _ => c.queries

/-- A listen is told its answer, and goes if that is not `ok`. -/
structure Listened (queries : List (List String))
    (r : FPersistentConnection Data Block × List (Call Data Block)) : Prop where
  known : forall query status, .onListenComplete query status ∈ r.2 -> query ∈ queries
  kept : forall query, query ∈ r.1.queries <-> query ∈ queries ∧
    forall status, .onListenComplete query status ∈ r.2 -> status = kFWPResponseForActionStatusOk

/-- The block of an answered request is taken out before it runs. -/
def taken (c : FPersistentConnection Data Block) (rn : Nat) : FPersistentConnection Data Block :=
  { c with requestCBHash := Numbered.remove c.requestCBHash rn }

def keys (c : FPersistentConnection Data Block) : List Nat :=
  c.outstandingPuts.map Prod.fst

/-- The puts that went over the present connection. -/
def putsSent (c : FPersistentConnection Data Block) : List Nat :=
  match c.realtime with
  | some conn => conn.putsSent
  | none => []

def Event.answers : Event Data Block -> Option Nat
  | .onResponse rn _ _ => some rn
  | _ => none

/-- All that an event does to the requests, unless it leaves the client offline. -/
inductive Moves (c : FPersistentConnection Data Block) (e : Event Data Block)
    (c' : FPersistentConnection Data Block) : Prop where
  | offline (hoffline : c'.connected = false)
  | requests (added : List (RequestCallback Block))
      (hstate : c'.connectionState = c.connectionState) (hwaiting : c'.waiting = c.waiting ++ added)
      (hputs : added.filterMap RequestCallback.putIndex = []) (hauth : .auth true ∉ added)
      (hsent : c'.putsSent = c.putsSent) (hkeys : c'.keys <:+ c.keys)
      (hcounter : c'.putCounter = c.putCounter)
  | issues (added : List (RequestCallback Block))
      (hstate : c'.connectionState = c.connectionState) (hwaiting : c'.waiting = c.waiting ++ added)
      (hputs : added.filterMap RequestCallback.putIndex =
        if c.canSendWrites then [c.putCounter] else [])
      (hauth : .auth true ∉ added)
      (hsent : c'.putsSent = c.putsSent ++ added.filterMap RequestCallback.putIndex)
      (hkeys : c'.keys = c.keys ++ [c.putCounter]) (hcounter : c'.putCounter = c.putCounter + 1)
  | answered (rn : Nat) (callback : RequestCallback Block)
      (hcallback : c.callbackFor rn = some callback) (hanswers : e.answers = some rn)
      (hother : forall restore, callback ≠ .auth restore)
      (hstate : c'.connectionState = c.connectionState)
      (hwaiting : c'.waiting = (c.taken rn).waiting) (hsent : c'.putsSent = c.putsSent)
      (hkeys : c'.keys = c.keys.filter fun index => callback.putIndex != some index)
      (hcounter : c'.putCounter = c.putCounter)
  | authenticated (rn : Nat) (restore : Bool) (hcallback : c.callbackFor rn = some (.auth restore))
      (hanswers : e.answers = some rn)
      (hstate : c'.connectionState = .connected)
      (hwaiting : c'.waiting = (c.taken rn).waiting ++ if restore then c.restored else [])
      (hsent : c'.putsSent = c.putsSent ++ if restore then c.keys else [])
      (hkeys : c'.keys = c.keys) (hcounter : c'.putCounter = c.putCounter)
  | greeted (stats : List (RequestCallback Block)) (hstats : stats = [] ∨ stats = [.stats])
      (hstate : c'.connectionState = .connected) (hwaiting : c'.waiting = stats ++ c.restored)
      (hsent : c'.putsSent = c.keys) (hkeys : c'.keys = c.keys)
      (hcounter : c'.putCounter = c.putCounter)
  | challenged (stats : List (RequestCallback Block)) (hstats : stats = [] ∨ stats = [.stats])
      (hstate : c'.connectionState = .authenticating)
      (hwaiting : c'.waiting = stats ++ [.auth true]) (hsent : c'.putsSent = [])
      (hkeys : c'.keys = c.keys) (hcounter : c'.putCounter = c.putCounter)

theorem Moves.same {e : Event Data Block} (hstate : c'.connectionState = c.connectionState)
    (hrealtime : c'.realtime = c.realtime) (hhash : c'.requestCBHash = c.requestCBHash)
    (hkeys : c'.keys <:+ c.keys) (hcounter : c'.putCounter = c.putCounter) : Moves c e c' := by
  apply Moves.requests [] hstate _ rfl List.not_mem_nil _ hkeys hcounter
  · rw [List.append_nil, waiting, hhash]
    rfl
  · rw [putsSent, hrealtime]
    rfl

/-- No answer that is held back says that the put was cancelled. -/
def Uncancelled (c : FPersistentConnection Data Block) : Prop :=
  forall put, put ∈ c.putsToAck -> put.status ≠ kFErrorWriteCanceled

/-- An event by which no put is cancelled. -/
def Event.Uncancelling : Event Data Block -> Prop
  | .purgeOutstandingWrites => False
  | .onResponse _ status _ => status ≠ kFErrorWriteCanceled
  | _ => True

/-- Only a purge tells a put that it was cancelled. -/
def Tells (c : FPersistentConnection Data Block) (e : Event Data Block)
    (r : FPersistentConnection Data Block × List (Call Data Block)) : Prop :=
  c.Uncancelled -> e.Uncancelling ->
    r.1.Uncancelled ∧ forall block reason, .onComplete block kFErrorWriteCanceled reason ∉ r.2

theorem not_told {calls : List (Call Data Block)} (h : completed calls = []) (block : Block)
    (status : String) (reason : Option String) : .onComplete block status reason ∉ calls := by
  intro hmem
  have hcompleted : block ∈ completed calls :=
    List.mem_filterMap.mpr ⟨_, hmem, rfl⟩
  rw [h] at hcompleted
  exact absurd hcompleted List.not_mem_nil

theorem Tells.of_same {e : Event Data Block} (hheld : c'.putsToAck = c.putsToAck)
    {calls : List (Call Data Block)} (hcalls : completed calls = []) : Tells c e (c', calls) := by
  intro huncancelled _
  refine ⟨?_, fun block reason => not_told hcalls block _ reason⟩
  show forall put, put ∈ c'.putsToAck -> _
  rw [hheld]
  exact huncancelled

/-- An event is handled, and keeps the invariant. -/
structure Handled (c : FPersistentConnection Data Block) (e : Event Data Block)
    (r : FPersistentConnection Data Block × List (Call Data Block)) : Prop where
  inv : r.1.Inv
  settles : Settles c e r
  tells : Tells c e r
  moves : Moves c e r.1
  listened : Listened (c.queriesAfter e) r

theorem Listened.of_same {queries : List (List String)} (hqueries : c.queries = queries)
    {calls : List (Call Data Block)}
    (hcalls : forall query status, .onListenComplete query status ∉ calls) :
    Listened queries (c, calls) where
  known := fun query status hmem => absurd hmem (hcalls query status)
  kept := by
    intro query
    rw [hqueries]
    exact ⟨fun h => ⟨h, fun status hmem => absurd hmem (hcalls query status)⟩, fun h => h.left⟩

theorem Phase.congr (h : c.Phase) (hstate : c'.connectionState = c.connectionState)
    (hrealtime : c'.realtime = c.realtime) (hhash : c'.requestCBHash = c.requestCBHash)
    (hscheduled : c'.scheduledRetry = c.scheduledRetry)
    (hreasons : c'.interruptReasons = c.interruptReasons)
    (hattempt : c'.currentFetchTokenAttempt = c.currentFetchTokenAttempt)
    (hfetches : c'.fetches = c.fetches) : c'.Phase := by
  cases h with
  | disconnected h₁ h₂ h₃ h₄ =>
      exact .disconnected (hstate.trans h₁) (hrealtime.trans h₂) (hhash.trans h₃)
        (by rw [hscheduled, hreasons]; exact h₄)
  | gettingToken h₁ h₂ h₃ h₄ h₅ =>
      exact .gettingToken (hstate.trans h₁) (hrealtime.trans h₂) (hhash.trans h₃)
        (hscheduled.trans h₄) (hreasons.trans h₅)
  | connecting h₁ h₂ h₃ h₄ h₅ h₆ =>
      exact .connecting (hstate.trans h₁) (hrealtime.trans h₂) (hhash.trans h₃)
        (hscheduled.trans h₄) (hreasons.trans h₅) (by rw [hattempt, hfetches]; exact h₆)
  | online h₁ h₂ h₃ h₄ h₅ =>
      refine .online ?_ ?_ (hscheduled.trans h₃) (hreasons.trans h₄)
        (by rw [hattempt, hfetches]; exact h₅)
      · rw [connected, hstate]
        exact h₁
      · rw [Ready, hrealtime]
        exact h₂

theorem Handled.of_sent {base : FPersistentConnection Data Block} (h : base.Inv)
    (hconnected : base.connected = true) {added : List (RequestCallback Block)}
    (hsent : Sent base added c') {e : Event Data Block} (hheld : base.putsToAck = c.putsToAck)
    (hout : base.puts = c.putsAfter e)
    (hqueries : base.queries = c.queriesAfter e) (hmoves : Moves c e c') :
    Handled c e (c', []) where
  inv := h.sent hconnected hsent
  tells := Tells.of_same (by rw [hsent.frame]; exact hheld) rfl
  moves := hmoves
  settles := by
    apply Settles.kept rfl
    · rw [held, hsent.frame]
      exact congrArg (List.map FTupleCallbackStatus.block) hheld
    · exact hsent.puts.trans hout
  listened := by
    apply Listened.of_same _ (fun _ _ h => absurd h List.not_mem_nil)
    rw [← hqueries, hsent.frame]
    rfl

theorem Handled.of_same (c c' : FPersistentConnection Data Block) {e : Event Data Block}
    (h : c'.Inv) {calls : List (Call Data Block)} (hcalls : completed calls = [])
    (hlistens : forall query status, .onListenComplete query status ∉ calls)
    (hheld : c'.putsToAck = c.putsToAck) (hout : c'.puts = c.putsAfter e)
    (hqueries : c'.queries = c.queriesAfter e) (hmoves : Moves c e c') :
    Handled c e (c', calls) where
  inv := h
  tells := Tells.of_same hheld hcalls
  moves := hmoves
  settles := Settles.kept hcalls (congrArg (List.map FTupleCallbackStatus.block) hheld) hout
  listened := Listened.of_same hqueries hlistens

theorem Handled.quiet (c c' : FPersistentConnection Data Block) {e : Event Data Block}
    (h : c'.Inv) (hheld : c'.putsToAck = c.putsToAck)
    (hout : c'.puts = c.putsAfter e)
    (hqueries : c'.queries = c.queriesAfter e) (hmoves : Moves c e c') : Handled c e (c', []) :=
  Handled.of_same c c' h rfl (fun _ _ hmem => absurd hmem List.not_mem_nil) hheld hout hqueries
    hmoves

theorem Sent.keys {added : List (RequestCallback Block)} (h : Sent c added c') :
    c'.keys = c.keys :=
  keys_of_unsent h.puts

theorem Sent.putsSent {added : List (RequestCallback Block)} (h : Sent c added c') :
    c'.putsSent = c.putsSent ++ added.filterMap RequestCallback.putIndex := by
  rcases h.realtime with ⟨conn, conn', hconn, hconn', _, _, hsent⟩
  rw [FPersistentConnection.putsSent, FPersistentConnection.putsSent, hconn, hconn']
  exact hsent

theorem Sent.putCounter {added : List (RequestCallback Block)} (h : Sent c added c') :
    c'.putCounter = c.putCounter := by
  rw [h.frame]

theorem Moves.of_sent {base : FPersistentConnection Data Block} {e : Event Data Block}
    {added : List (RequestCallback Block)} (hsent : Sent base added c')
    (hputs : added.filterMap RequestCallback.putIndex = []) (hauth : .auth true ∉ added)
    (hstate : base.connectionState = c.connectionState) (hrealtime : base.realtime = c.realtime)
    (hhash : base.requestCBHash = c.requestCBHash) (hkeys : base.keys = c.keys)
    (hcounter : base.putCounter = c.putCounter) : Moves c e c' := by
  apply Moves.requests added (hsent.connectionState.trans hstate) _ hputs hauth _ _
    (hsent.putCounter.trans hcounter)
  · rw [hsent.waiting, waiting, hhash]
    rfl
  · rw [hsent.putsSent, hputs, List.append_nil, FPersistentConnection.putsSent, hrealtime]
    rfl
  · have hsame : c'.keys = c.keys := hsent.keys.trans hkeys
    exact hsame ▸ List.suffix_refl c'.keys

/-!
## Requests of the repo
-/

theorem listen_spec (h : c.Inv) {query : List String} (hfree : c.outstandingQuery query = none) :
    exists c', c.listen query = some c' ∧ Handled c (.listen query) (c', []) := by
  let listenSpec : FOutstandingQuery := { query := query, serial := c.listenCount }
  let base : FPersistentConnection Data Block :=
    { c with listens := c.listens ++ [listenSpec], listenCount := c.listenCount + 1 }
  have hbase : base.Inv :=
    ⟨{ h.counted with }, h.blocks, h.phase.congr rfl rfl rfl rfl rfl rfl rfl⟩
  have hout : base.puts = c.puts ++ [] := (List.append_nil _).symm
  have hqueries : base.queries = c.queriesAfter (.listen query) := List.map_append
  cases hconnected : base.connected with
  | false =>
      refine ⟨base, ?_, Handled.quiet c base hbase rfl hout hqueries
        (.same rfl rfl rfl (List.suffix_refl _) rfl)⟩
      rw [listen, hfree]
      exact if_neg (by rw [hconnected]; decide)
  | true =>
      rcases sendListen_spec (hbase.online hconnected).left listenSpec with ⟨c', hc', hsent⟩
      refine ⟨c', ?_, Handled.of_sent hbase hconnected hsent rfl hout hqueries
        (.of_sent hsent rfl (by simp) rfl rfl rfl rfl rfl)⟩
      rw [listen, hfree]
      exact (if_pos hconnected).trans hc'

theorem inv_removeListen (h : c.Inv) (query : List String) : (c.removeListen query).Inv :=
  ⟨{ h.counted with }, h.blocks, h.phase.congr rfl rfl rfl rfl rfl rfl rfl⟩

theorem queries_removeListen (c : FPersistentConnection Data Block) (query : List String) :
    (c.removeListen query).queries = c.queries.filter (· != query) := by
  rw [queries, queries, List.filter_map]
  rfl

theorem unlisten_spec (h : c.Inv) (query : List String) :
    exists c', c.unlisten query = some c' ∧ Handled c (.unlisten query) (c', []) := by
  have hbase := inv_removeListen h query
  have hout : (c.removeListen query).puts = c.puts ++ [] := (List.append_nil _).symm
  have hqueries := queries_removeListen c query
  cases hsend : (c.outstandingQuery query).isSome && (c.removeListen query).connected with
  | false =>
      refine ⟨c.removeListen query, ?_, Handled.quiet c _ hbase rfl hout hqueries
        (.same rfl rfl rfl (List.suffix_refl _) rfl)⟩
      exact if_neg (by rw [hsend]; decide)
  | true =>
      have hconnected := (Bool.and_eq_true_iff.mp hsend).right
      rcases sendAction_spec (hbase.online hconnected).left (.unlisten query) none rfl rfl (by simp)
        with ⟨c', hc', hsent⟩
      exact ⟨c', (if_pos hsend).trans hc',
        Handled.of_sent hbase hconnected hsent rfl hout hqueries
          (.of_sent hsent rfl (by simp) rfl rfl rfl rfl rfl)⟩

theorem inv_issued (h : c.Inv) (put : FOutstandingPut Data Block) :
    Inv
      { c with
        outstandingPuts := c.outstandingPuts ++ [(c.putCounter, put)]
        putCounter := c.putCounter + 1 } := by
  refine ⟨?_, ?_, h.phase.congr rfl rfl rfl rfl rfl rfl rfl⟩
  · exact
      { h.counted with
        indices := h.counted.indices.append_one h.counted.indexed put
        indexed := h.counted.indexed.append_one put }
  · intro index block hmem
    rcases h.blocks index block hmem with ⟨hlt, hfound⟩
    refine ⟨hlt.trans (Nat.lt_succ_self _), ?_⟩
    intro found heq
    apply hfound
    rw [putCallback, outstandingPut, Numbered.lookup_append_one _ hlt.ne] at heq
    exact heq

theorem putInternal_spec (h : c.Inv) (action : PutAction) (data : Data) (hash : Option String)
    (onComplete : Block) {e : Event Data Block}
    (he : e.put = some ⟨action, data, hash, onComplete, false⟩)
    (hqueries : c.queriesAfter e = c.queries) :
    exists c', c.putInternal action data hash onComplete = some c' ∧ Handled c e (c', []) := by
  let put : FOutstandingPut Data Block :=
    { action := action, data := data, hash := hash, onCompleteBlock := onComplete, sent := false }
  let base : FPersistentConnection Data Block :=
    { c with
      outstandingPuts := c.outstandingPuts ++ [(c.putCounter, put)]
      putCounter := c.putCounter + 1 }
  have hbase : base.Inv := inv_issued h put
  have hout : base.puts = c.putsAfter e := by
    rw [putsAfter, he]
    exact List.map_append
  have hkeys : base.keys = c.keys ++ [c.putCounter] := List.map_append
  have hcan : base.canSendWrites = c.canSendWrites := rfl
  cases hsend : base.canSendWrites with
  | false =>
      have hunsent : [] = if c.canSendWrites then [c.putCounter] else [] := by
        rw [← hcan, hsend]
        rfl
      refine ⟨base, if_neg (by rw [hsend]; decide), ?_⟩
      exact Handled.quiet c base hbase rfl hout hqueries.symm
        (.issues [] rfl (List.append_nil _).symm hunsent List.not_mem_nil (List.append_nil _).symm
          hkeys rfl)
  | true =>
      have hstate : base.connectionState = .connected := of_decide_eq_true hsend
      have hconnected : base.connected = true := (connected_eq base).mpr (Or.inr hstate)
      have hput : base.outstandingPut c.putCounter = some put :=
        Numbered.lookup_of_mem hbase.counted.indices (List.mem_append_right _ List.mem_cons_self)
      rcases sendPut_spec (hbase.online hconnected).left hstate hput with ⟨c', hc', hsent⟩
      exact ⟨c', (if_pos hsend).trans hc',
        Handled.of_sent hbase hconnected hsent rfl hout hqueries.symm
          (.issues [_] hsent.connectionState hsent.waiting (by rw [← hcan, hsend]; rfl) (by simp)
            hsent.putsSent (hsent.keys.trans hkeys) hsent.putCounter)⟩

theorem onDisconnectAction_spec (h : c.Inv) (tuple : FTupleOnDisconnect Data Block) :
    exists c', c.onDisconnectAction tuple = some c' ∧
      Handled c (.onDisconnectAction tuple) (c', []) := by
  let queued : FPersistentConnection Data Block :=
    { c with onDisconnectQueue := c.onDisconnectQueue ++ [tuple] }
  have hqueued : queued.Inv :=
    ⟨{ h.counted with }, h.blocks, h.phase.congr rfl rfl rfl rfl rfl rfl rfl⟩
  have hout : c.puts = c.puts ++ [] := (List.append_nil _).symm
  cases hsend : c.canSendWrites with
  | false =>
      refine ⟨queued, ?_, Handled.quiet c queued hqueued rfl hout rfl
        (.same rfl rfl rfl (List.suffix_refl _) rfl)⟩
      exact if_neg (by rw [hsend]; decide)
  | true =>
      have hstate : c.connectionState = .connected := of_decide_eq_true hsend
      have hconnected : c.connected = true := (connected_eq c).mpr (Or.inr hstate)
      rcases sendAction_spec (h.online hconnected).left (.onDisconnect tuple.action tuple.data)
        (some (.onDisconnect tuple.onComplete)) rfl rfl (by simp) with ⟨c', hc', hsent⟩
      exact ⟨c', (if_pos hsend).trans hc', Handled.of_sent h hconnected hsent rfl hout rfl
        (.of_sent hsent rfl (by simp) rfl rfl rfl rfl rfl)⟩

theorem refreshAuthToken_spec (h : c.Inv) (token : Option String) :
    exists c', c.refreshAuthToken token = some c' ∧
      Handled c (.refreshAuthToken token) (c', []) := by
  let base : FPersistentConnection Data Block := { c with authToken := token }
  have hbase : base.Inv := ⟨{ h.counted with }, h.blocks, h.phase.congr rfl rfl rfl rfl rfl rfl rfl⟩
  have hout : base.puts = c.puts ++ [] := (List.append_nil _).symm
  cases hconnected : base.connected with
  | false =>
      refine ⟨base, ?_, Handled.quiet c base hbase rfl hout rfl
        (.same rfl rfl rfl (List.suffix_refl _) rfl)⟩
      exact if_neg (by rw [hconnected]; decide)
  | true =>
      have hready := (hbase.online hconnected).left
      cases token with
      | none =>
          rcases sendAction_spec hready .unauth none rfl rfl (by simp) with ⟨c', hc', hsent⟩
          exact ⟨c', (if_pos hconnected).trans hc',
            Handled.of_sent hbase hconnected hsent rfl hout rfl
              (.of_sent hsent rfl (by simp) rfl rfl rfl rfl rfl)⟩
      | some token =>
          rcases sendAction_spec hready (.auth token) (some (.auth false)) rfl rfl (by simp) with
            ⟨c', hc', hsent⟩
          refine ⟨c', ?_, Handled.of_sent hbase hconnected hsent rfl hout rfl
            (.of_sent hsent rfl (by simp) rfl rfl rfl rfl rfl)⟩
          have hauth : base.sendAuthAndRestoreStateAfterComplete false = some c' :=
            (if_pos hconnected).trans hc'
          exact (if_pos hconnected).trans hauth

theorem purgeOutstandingWrites_spec (h : c.Inv) :
    Handled c .purgeOutstandingWrites c.purgeOutstandingWrites := by
  have hcancelled : c.sortedKeys.filterMap (fun key => (c.outstandingPut key).map fun put =>
      (.onComplete put.onCompleteBlock kFErrorWriteCanceled none : Call Data Block)) =
        c.outstandingPuts.map fun entry =>
          .onComplete entry.2.onCompleteBlock kFErrorWriteCanceled none := by
    rw [sortedKeys_eq h.counted]
    exact Numbered.filterMap_lookup h.counted.indices fun _ put =>
      (.onComplete put.onCompleteBlock kFErrorWriteCanceled none : Call Data Block)
  constructor
  case inv =>
    refine ⟨?_, ?_, h.phase.congr rfl rfl rfl rfl rfl rfl rfl⟩
    · exact
        { h.counted with
          indices := Numbered.increasing_nil
          indexed := Numbered.below_nil _ }
    · exact h.blocks.sublist h.counted (List.nil_sublist _) (List.Sublist.refl _) rfl
  case settles =>
    apply Settles.purged rfl _ rfl rfl
    rw [purgeOutstandingWrites, hcancelled]
    simp [completed, ackPuts, held, outstanding, List.filterMap_append, List.filterMap_map]
  case tells => exact fun _ hnot => absurd hnot id
  case moves => exact .same rfl rfl rfl List.nil_suffix rfl
  case listened =>
    apply Listened.of_same (c := c.purgeOutstandingWrites.1) rfl
    intro query status hmem
    rw [hcancelled] at hmem
    simp [ackPuts] at hmem

/-!
## Losing the connection
-/

/-- The connection is gone, and another attempt is made unless that is interrupted. -/
def dropped (c : FPersistentConnection Data Block) : FPersistentConnection Data Block :=
  { c with
    connectionState := .disconnected
    realtime := none
    outstandingPuts := c.outstandingPuts.filter fun entry => !isSentTransaction entry
    requestCBHash := []
    unackedListensCount := 0
    scheduledRetry := c.shouldReconnect || c.scheduledRetry }

theorem onDisconnect_eq (c : FPersistentConnection Data Block) :
    c.onDisconnect = some (c.dropped, c.cancelSentTransactions.2 ++ [.onDisconnect]) := by
  cases hresumed : c.interruptReasons.isEmpty <;>
    simp [onDisconnect, cancelSentTransactions, tryScheduleReconnect, shouldReconnect, dropped,
      hresumed]

theorem dropped_spec (hindices : Numbered.Increasing c.outstandingPuts)
    (hindexed : Numbered.Below c.outstandingPuts c.putCounter)
    (hscheduled : c.scheduledRetry = false) {e : Event Data Block} (he : e.put = none)
    {base : FPersistentConnection Data Block} (hheld : c.putsToAck = base.putsToAck)
    (hout : c.outstandingPuts = base.outstandingPuts) (hqueries : c.queries = base.queriesAfter e) :
    Handled base e (c.dropped, c.cancelSentTransactions.2 ++ [.onDisconnect]) := by
  constructor
  case inv =>
    refine ⟨?_, fun _ _ h => absurd h List.not_mem_nil, Phase.disconnected rfl rfl rfl ?_⟩
    · exact
        { increasing := Numbered.increasing_nil
          below := Numbered.below_nil _
          unacked := rfl
          indices := hindices.sublist List.filter_sublist
          indexed := hindexed.sublist List.filter_sublist }
    · intro htrue
      have hreconnect : (c.shouldReconnect || c.scheduledRetry) = true := htrue
      rw [hscheduled, Bool.or_false] at hreconnect
      exact List.isEmpty_iff.mp hreconnect
  case settles =>
    apply Settles.dropped (issued_of_none he) _
      (congrArg (List.map FTupleCallbackStatus.block) hheld)
    · exact congrArg (List.filter fun entry => !isSentTransaction entry) hout
    · rw [← hout]
      simp [completed, cancelSentTransactions, List.filterMap_append, List.filterMap_map]
  case tells =>
    intro huncancelled _
    refine ⟨?_, ?_⟩
    · show forall put, put ∈ c.putsToAck -> _
      rw [hheld]
      exact huncancelled
    · intro block reason hmem
      simp only [cancelSentTransactions, List.mem_append, List.mem_map, List.mem_singleton,
        reduceCtorEq, or_false] at hmem
      rcases hmem with ⟨entry, _, hcall⟩
      rcases Call.onComplete.inj hcall with ⟨_, hstatus, _⟩
      exact absurd hstatus (by decide)
  case moves => exact .offline rfl
  case listened =>
    apply Listened.of_same (c := c.dropped) hqueries
    simp [cancelSentTransactions]

theorem closeRealtime_spec (h : c.Inv) (token : Option String) {e : Event Data Block}
    (he : e.put = none) (hqueries : c.queriesAfter e = c.queries) :
    exists r, closeRealtime { c with authToken := token } = some r ∧ Handled c e r := by
  let base : FPersistentConnection Data Block := { c with authToken := token }
  have hout : base.puts = c.putsAfter e := (putsAfter_of_none he).symm
  have hclosed : c.realtime = none ->
      base.closeRealtime = some (base, []) ∧ Handled c e (base, []) := by
    intro hrealtime
    refine ⟨by simp [closeRealtime, base, hrealtime], ?_⟩
    exact Handled.quiet c base
      ⟨{ h.counted with }, h.blocks, h.phase.congr rfl rfl rfl rfl rfl rfl rfl⟩ rfl hout
      hqueries.symm (.same rfl rfl rfl (List.suffix_refl _) rfl)
  have hopen : forall conn, c.realtime = some conn -> c.scheduledRetry = false ->
      exists r, base.closeRealtime = some r ∧ Handled c e r := by
    intro conn hconn hscheduled
    have hclose : base.closeRealtime = base.onDisconnect := by simp [closeRealtime, base, hconn]
    exact ⟨_, hclose.trans (onDisconnect_eq base),
      dropped_spec (c := base) h.counted.indices h.counted.indexed hscheduled he rfl rfl
        hqueries.symm⟩
  cases h.phase with
  | disconnected _ hrealtime => exact ⟨_, hclosed hrealtime⟩
  | gettingToken _ hrealtime => exact ⟨_, hclosed hrealtime⟩
  | connecting _ hrealtime _ hscheduled => exact hopen _ hrealtime hscheduled
  | online _ hready hscheduled =>
      rcases hready with ⟨conn, hconn, _⟩
      exact hopen conn hconn hscheduled

/-- While a reason to interrupt is given, there is no connection and no attempt at one. -/
theorem interruptForReason_spec (h : c.Inv) (reason : String) {e : Event Data Block}
    (he : e.put = none) (hqueries : c.queriesAfter e = c.queries) :
    exists r, c.interruptForReason reason = some r ∧ Handled c e r := by
  let base : FPersistentConnection Data Block :=
    { c with interruptReasons := c.interruptReasons.insert reason }
  have hdrop : c.scheduledRetry = false -> base.onDisconnect =
        some (base.dropped, base.cancelSentTransactions.2 ++ [.onDisconnect]) ∧
      Handled c e (base.dropped, base.cancelSentTransactions.2 ++ [.onDisconnect]) :=
    fun hscheduled => ⟨onDisconnect_eq base,
      dropped_spec (c := base) h.counted.indices h.counted.indexed hscheduled he rfl rfl
        hqueries.symm⟩
  let offline : FPersistentConnection Data Block :=
    { base with scheduledRetry := false, connectionState := .disconnected }
  have hout : offline.puts = c.putsAfter e := (putsAfter_of_none he).symm
  have hlistens : offline.queries = c.queriesAfter e := hqueries.symm
  have hnone : c.requestCBHash = [] -> c.realtime = none ->
      c.interruptForReason reason = some (offline, []) ∧ Handled c e (offline, []) := by
    intro hwaiting hrealtime
    refine ⟨by simp [interruptForReason, offline, base, hrealtime], ?_⟩
    apply Handled.quiet c offline _ rfl hout hlistens (.offline rfl)
    exact ⟨{ h.counted with }, h.blocks,
      Phase.disconnected rfl hrealtime hwaiting (fun hcontra => by cases hcontra)⟩
  have hsome : forall conn, c.realtime = some conn ->
      c.interruptForReason reason = base.onDisconnect := by
    intro conn hconn
    simp [interruptForReason, closeRealtime, base, hconn]
  cases h.phase with
  | disconnected _ hrealtime hwaiting => exact ⟨_, hnone hwaiting hrealtime⟩
  | gettingToken _ hrealtime hwaiting => exact ⟨_, hnone hwaiting hrealtime⟩
  | connecting _ hrealtime _ hscheduled =>
      rw [hsome _ hrealtime]
      exact ⟨_, hdrop hscheduled⟩
  | online _ hready hscheduled =>
      rcases hready with ⟨conn, hconn, _⟩
      rw [hsome conn hconn]
      exact ⟨_, hdrop hscheduled⟩

/-!
## Making another connection
-/

/-- An attempt is scheduled only while nothing interrupts the connection. -/
theorem tryScheduleReconnect_spec (hcounted : c.Counted) (hblocks : c.Blocks)
    (hstate : c.connectionState = .disconnected) (hrealtime : c.realtime = none)
    (hwaiting : c.requestCBHash = [])
    (hscheduled : c.scheduledRetry = true -> c.interruptReasons = [])
    {e : Event Data Block} (base : FPersistentConnection Data Block) (he : e.put = none)
    (hheld : c.putsToAck = base.putsToAck) (hout : c.outstandingPuts = base.outstandingPuts)
    (hqueries : c.queries = base.queriesAfter e) :
    exists c', c.tryScheduleReconnect = some c' ∧ Handled base e (c', []) := by
  have hout' : c.puts = base.putsAfter e := by
    rw [putsAfter_of_none he, puts, hout]
    rfl
  have hoffline : c.connected = false := by simp [connected, hstate]
  cases hreconnect : c.shouldReconnect with
  | false =>
      refine ⟨c, ?_, Handled.quiet base c ⟨hcounted, hblocks, ?_⟩ hheld hout' hqueries
        (.offline hoffline)⟩
      · rw [tryScheduleReconnect, hreconnect]
        rfl
      · exact Phase.disconnected hstate hrealtime hwaiting hscheduled
  | true =>
      refine ⟨{ c with scheduledRetry := true }, ?_,
        Handled.quiet base _ ⟨{ hcounted with }, hblocks, ?_⟩ hheld hout' hqueries
          (.offline hoffline)⟩
      · rw [tryScheduleReconnect, hreconnect, if_pos rfl, if_pos hstate]
      · exact Phase.disconnected hstate hrealtime hwaiting fun _ => List.isEmpty_iff.mp hreconnect

theorem resumeForReason_spec (h : c.Inv) (reason : String) :
    exists c', c.resumeForReason reason = some c' ∧
      Handled c (.resumeForReason reason) (c', []) := by
  let base : FPersistentConnection Data Block :=
    { c with interruptReasons := c.interruptReasons.filter (· != reason) }
  have hresumed : c.interruptReasons = [] -> base.interruptReasons = [] := by
    intro hnil
    show c.interruptReasons.filter (· != reason) = []
    rw [hnil]
    rfl
  have hbase : base.Inv := by
    refine ⟨{ h.counted with }, h.blocks, ?_⟩
    cases h.phase with
    | disconnected h₁ h₂ h₃ h₄ => exact .disconnected h₁ h₂ h₃ fun htrue => hresumed (h₄ htrue)
    | gettingToken h₁ h₂ h₃ h₄ h₅ => exact .gettingToken h₁ h₂ h₃ h₄ (hresumed h₅)
    | connecting h₁ h₂ h₃ h₄ h₅ h₆ => exact .connecting h₁ h₂ h₃ h₄ (hresumed h₅) h₆
    | online h₁ h₂ h₃ h₄ h₅ => exact .online h₁ h₂ h₃ (hresumed h₄) h₅
  cases hsend : base.shouldReconnect && base.connectionState = .disconnected with
  | false =>
      refine ⟨base, ?_, Handled.quiet c base hbase rfl (List.append_nil _).symm rfl
        (.same rfl rfl rfl (List.suffix_refl _) rfl)⟩
      exact if_neg (by rw [hsend]; decide)
  | true =>
      rcases Bool.and_eq_true_iff.mp hsend with ⟨hreconnect, hstate⟩
      have hstate : base.connectionState = .disconnected := of_decide_eq_true hstate
      rcases hbase.of_disconnected hstate with ⟨hrealtime, hwaiting⟩
      have hresumed' : base.scheduledRetry = true -> base.interruptReasons = [] :=
        fun _ => List.isEmpty_iff.mp hreconnect
      rcases tryScheduleReconnect_spec hbase.counted hbase.blocks hstate hrealtime hwaiting
        hresumed' (e := .resumeForReason reason) c rfl rfl rfl rfl with ⟨c', hc', hhandled⟩
      exact ⟨c', (if_pos hsend).trans hc', hhandled⟩

theorem networkReachable_spec (h : c.Inv) :
    exists c', c.networkReachable = some c' ∧ Handled c .networkReachable (c', []) := by
  by_cases hstate : c.connectionState = .disconnected
  · rcases h.of_disconnected hstate with ⟨hrealtime, hwaiting⟩
    rw [networkReachable, if_pos hstate]
    exact tryScheduleReconnect_spec h.counted h.blocks hstate hrealtime hwaiting
      (fun htrue => (h.resumed_of_scheduled htrue).right.right.right) c rfl rfl rfl rfl
  · exact ⟨c, if_neg hstate, Handled.quiet c c h rfl (List.append_nil _).symm rfl
      (.same rfl rfl rfl (List.suffix_refl _) rfl)⟩

theorem retry_spec (h : c.Inv) :
    exists c', c.retry = some c' ∧ Handled c .retry (c', []) := by
  cases hscheduled : c.scheduledRetry with
  | false =>
      refine ⟨c, ?_, Handled.quiet c c h rfl (List.append_nil _).symm rfl
        (.same rfl rfl rfl (List.suffix_refl _) rfl)⟩
      rw [retry, hscheduled]
      rfl
  | true =>
      rcases h.resumed_of_scheduled hscheduled with ⟨hstate, hrealtime, hwaiting, hresumed⟩
      let fetching : FPersistentConnection Data Block :=
        { c with
          scheduledRetry := false
          connectionState := .gettingToken
          currentFetchTokenAttempt := c.currentFetchTokenAttempt + 1
          fetches := c.fetches ++ [c.currentFetchTokenAttempt + 1] }
      have hfetching : fetching.Inv :=
        ⟨{ h.counted with }, h.blocks, Phase.gettingToken rfl hrealtime hwaiting rfl hresumed⟩
      refine ⟨fetching, ?_, Handled.quiet c fetching hfetching rfl (List.append_nil _).symm rfl
        (.offline rfl)⟩
      rw [retry, hscheduled, if_pos rfl, if_pos hstate]

/-- Only the answer to the latest attempt opens a connection, unless interrupted meanwhile. -/
theorem fetchedToken_spec (h : c.Inv) (attempt : Nat) (result : FetchedToken) :
    exists c', c.fetchedToken attempt result = some c' ∧
      Handled c (.fetchedToken attempt result) (c', []) := by
  have hout : c.puts = c.puts ++ [] := (List.append_nil _).symm
  unfold fetchedToken
  by_cases hmem : attempt ∈ c.fetches
  · rw [if_pos hmem]
    let base : FPersistentConnection Data Block :=
      { c with fetches := c.fetches.filter (· != attempt) }
    by_cases hattempt : attempt = c.currentFetchTokenAttempt
    · have hlatest : c.currentFetchTokenAttempt ∈ c.fetches := by
        rw [← hattempt]
        exact hmem
      have hfetched : c.currentFetchTokenAttempt ∉ base.fetches := by
        rw [← hattempt]
        simp [base]
      cases result with
      | error =>
          have hoffline : c.realtime = none ∧ c.requestCBHash = [] ∧
              (c.scheduledRetry = true -> c.interruptReasons = []) := by
            cases h.phase with
            | disconnected _ h₂ h₃ h₄ => exact ⟨h₂, h₃, h₄⟩
            | gettingToken _ h₂ h₃ _ h₅ => exact ⟨h₂, h₃, fun _ => h₅⟩
            | connecting _ _ _ _ _ hnot => exact absurd hlatest hnot
            | online _ _ _ _ hnot => exact absurd hlatest hnot
          rw [if_pos hattempt]
          exact tryScheduleReconnect_spec (c := { base with connectionState := .disconnected })
            { h.counted with } h.blocks rfl hoffline.left hoffline.right.left hoffline.right.right
            c rfl rfl rfl rfl
      | token token =>
          rw [if_pos hattempt]
          cases h.phase with
          | disconnected h₁ h₂ h₃ h₄ =>
              refine ⟨base, ?_, Handled.quiet c base ⟨{ h.counted with }, h.blocks,
                .disconnected h₁ h₂ h₃ h₄⟩ rfl hout rfl
                (.same rfl rfl rfl (List.suffix_refl _) rfl)⟩
              simp [h₁, base]
          | gettingToken h₁ h₂ h₃ h₄ h₅ =>
              let opened : FPersistentConnection Data Block :=
                { base with
                  authToken := token
                  connectionState := .connecting
                  realtime := some { ready := false, sent := [] } }
              refine ⟨opened, ?_, Handled.quiet c opened ⟨{ h.counted with }, h.blocks,
                .connecting rfl rfl h₃ h₄ h₅ hfetched⟩ rfl hout rfl (.offline rfl)⟩
              simp [openNetworkConnectionWithToken, h₁, opened, base]
          | connecting _ _ _ _ _ hnot => exact absurd hlatest hnot
          | online _ _ _ _ hnot => exact absurd hlatest hnot
    · rw [if_neg hattempt]
      have hkept : c.currentFetchTokenAttempt ∉ c.fetches ->
          c.currentFetchTokenAttempt ∉ base.fetches :=
        fun hnot hcontra => hnot (List.mem_of_mem_filter hcontra)
      refine ⟨base, rfl, Handled.quiet c base ⟨{ h.counted with }, h.blocks, ?_⟩ rfl hout rfl
        (.same rfl rfl rfl (List.suffix_refl _) rfl)⟩
      cases h.phase with
      | disconnected h₁ h₂ h₃ h₄ => exact .disconnected h₁ h₂ h₃ h₄
      | gettingToken h₁ h₂ h₃ h₄ h₅ => exact .gettingToken h₁ h₂ h₃ h₄ h₅
      | connecting h₁ h₂ h₃ h₄ h₅ h₆ => exact .connecting h₁ h₂ h₃ h₄ h₅ (hkept h₆)
      | online h₁ h₂ h₃ h₄ h₅ => exact .online h₁ h₂ h₃ h₄ (hkept h₅)
  · rw [if_neg hmem]
    exact ⟨c, rfl, Handled.quiet c c h rfl hout rfl (.same rfl rfl rfl (List.suffix_refl _) rfl)⟩

/-- The server has greeted a connection, on which nothing has been sent. -/
def greeted (c : FPersistentConnection Data Block) (state : ConnectionState) :
    FPersistentConnection Data Block :=
  { c with realtime := some { ready := true, sent := [] }, connectionState := state }

theorem Sent.withState {added : List (RequestCallback Block)} (h : Sent c added c')
    (state : ConnectionState) :
    Sent { c with connectionState := state } added { c' with connectionState := state } where
  frame := by rw [h.frame]
  realtime := h.realtime
  waiting := h.waiting
  blocks := h.blocks
  puts := h.puts
  counted := fun hcounted => { h.counted { hcounted with } with }

theorem putCallbacks_of_puts
    (h : c'.outstandingPuts.map unsent = c.outstandingPuts.map unsent) :
    c'.putCallbacks = c.putCallbacks := by
  have hcallbacks := congrArg (List.map fun entry =>
    (.put entry.1 entry.2.onCompleteBlock : RequestCallback Block)) h
  rw [List.map_map, List.map_map] at hcallbacks
  exact hcallbacks

theorem putIndex_restored (c : FPersistentConnection Data Block) :
    c.restored.filterMap RequestCallback.putIndex = c.keys := by
  have hnone : forall {α : Type} (f : α -> RequestCallback Block) (as : List α),
      (forall a, (f a).putIndex = none) ->
      (as.map f).filterMap RequestCallback.putIndex = [] := by
    intro α f as hf
    rw [List.filterMap_map]
    exact List.filterMap_eq_nil_iff.mpr fun a _ => hf a
  rw [FPersistentConnection.restored, List.filterMap_append, List.filterMap_append, hnone _ _
    fun _ => rfl, hnone _ _ fun _ => rfl, List.nil_append, List.append_nil, putCallbacks,
    List.filterMap_map]
  exact congrFun List.filterMap_eq_map' _

theorem Sent.restored {added : List (RequestCallback Block)} (h : Sent c added c') :
    c'.restored = c.restored := by
  have hlistens : c'.listens = c.listens := by rw [h.frame]
  have hqueue : c'.onDisconnectQueue = c.onDisconnectQueue := by rw [h.frame]
  rw [FPersistentConnection.restored, FPersistentConnection.restored, hlistens, hqueue,
    putCallbacks_of_puts h.puts]

/-- What a greeting makes the client send. -/
structure Greeted (c : FPersistentConnection Data Block) (state : ConnectionState)
    (added : List (RequestCallback Block)) (c' : FPersistentConnection Data Block) : Prop where
  sent : exists stats, (stats = [] ∨ stats = [.stats]) ∧
    Sent (c.greeted state) (stats ++ added) c'
  restores : (state = .connected ∧ added = c.restored) ∨
    (state = .authenticating ∧ added = [.auth true])

theorem restoreAuth_spec (hready : c.Ready) (hcounted : c.Counted)
    (hstate : c.connectionState = .connecting) :
    exists state added c' queue, Sent { c with connectionState := state } added c' ∧
      c.restoreAuth = some { c' with onDisconnectQueue := queue } ∧
      ((state = .connected ∧ added = c.restored) ∨
        (state = .authenticating ∧ added = [.auth true])) := by
  cases hnone : c.authToken.isNone with
  | true =>
      have hrestore : c.restoreAuth = restoreState { c with connectionState := .connected } := by
        simp [restoreAuth, hstate, hnone]
      rcases restoreState_spec (c := { c with connectionState := .connected }) hready rfl
        { hcounted with } with ⟨c', hsent, hc'⟩
      exact ⟨.connected, _, c', [], hsent, hrestore.trans hc', Or.inl ⟨rfl, rfl⟩⟩
  | false =>
      rcases Option.isSome_iff_exists.mp (by simpa using hnone) with ⟨token, htoken⟩
      have hauth : c.restoreAuth =
          sendAction { c with connectionState := .authenticating } (.auth token)
            (some (.auth true)) := by
        simp [restoreAuth, hstate, sendAuthAndRestoreStateAfterComplete, connected, htoken]
      rcases sendAction_spec (c := { c with connectionState := .authenticating }) hready
        (.auth token) (some (.auth true)) rfl rfl (by simp) with ⟨c', hc', hsent⟩
      exact ⟨.authenticating, _, c', c'.onDisconnectQueue, hsent, hauth.trans hc',
        Or.inr ⟨rfl, rfl⟩⟩

theorem onHandshake_spec (h : c.Inv) :
    c.onHandshake = some (c, []) ∨
    exists state added c' queue, c.connectionState = .connecting ∧ Greeted c state added c' ∧
      c.onHandshake =
        some ({ c' with onDisconnectQueue := queue, firstConnection := false }, [.onConnect]) := by
  have hready : (c.greeted .connecting).Ready := ⟨_, rfl, rfl⟩
  have hcounted : (c.greeted .connecting).Counted := { h.counted with }
  have hstats : exists stats c₁, (stats = [] ∨ stats = [.stats]) ∧
      (if c.firstConnection then (c.greeted .connecting).sendConnectStats
        else some (c.greeted .connecting)) = some c₁ ∧
      Sent (c.greeted .connecting) stats c₁ := by
    cases hfirst : c.firstConnection with
    | false => exact ⟨[], _, Or.inl rfl, rfl, Sent.refl hready⟩
    | true =>
        rcases sendAction_spec hready .stats (some .stats) rfl rfl (by simp) with ⟨c₁, hc₁, hsent⟩
        exact ⟨_, c₁, Or.inr rfl, hc₁, hsent⟩
  cases h.phase with
  | disconnected _ hrealtime => exact Or.inl (by simp [onHandshake, hrealtime])
  | gettingToken _ hrealtime => exact Or.inl (by simp [onHandshake, hrealtime])
  | online _ hready =>
      rcases hready with ⟨conn, hconn, hready⟩
      exact Or.inl (by simp [onHandshake, hconn, hready])
  | connecting hstate hrealtime =>
      right
      rcases hstats with ⟨stats, c₁, hkind, hc₁, hsent₁⟩
      rcases restoreAuth_spec hsent₁.ready (hsent₁.counted hcounted) hsent₁.connectionState with
        ⟨state, added, c₂, queue, hsent₂, hc₂, hrestores⟩
      rw [hsent₁.restored] at hrestores
      refine ⟨state, added, c₂, queue, hstate,
        ⟨⟨stats, hkind, (hsent₁.withState state).trans hsent₂⟩, hrestores⟩, ?_⟩
      have hgreeted : c.onHandshake = onReady (c.greeted .connecting) := by
        simp [onHandshake, hrealtime, greeted, hstate]
      rw [hgreeted, onReady]
      refine (congrArg (Option.bind · _) hc₁).trans ?_
      rw [Option.bind_some, hc₂]
      rfl

theorem inv_greeted (h : c.Inv) (hstate : c.connectionState = .connecting)
    {state : ConnectionState} (honline : state = .connected ∨ state = .authenticating) :
    (c.greeted state).Inv := by
  refine ⟨{ h.counted with }, h.blocks, ?_⟩
  cases h.phase with
  | disconnected hnot => simp [hstate] at hnot
  | gettingToken hnot => simp [hstate] at hnot
  | online hnot => simp [connected, hstate] at hnot
  | connecting _ _ _ hscheduled hresumed hfetched =>
      refine .online ?_ ⟨_, rfl, rfl⟩ hscheduled hresumed hfetched
      rcases honline with rfl | rfl <;> rfl

theorem onHandshake_handled (h : c.Inv) :
    exists r, c.onHandshake = some r ∧ Handled c .onHandshake r := by
  rcases onHandshake_spec h with hc | ⟨state, added, c', queue, hstate, hgreeted, hc⟩
  · exact ⟨_, hc, Handled.quiet c c h rfl (List.append_nil _).symm rfl
      (.same rfl rfl rfl (List.suffix_refl _) rfl)⟩
  · rcases hgreeted.sent with ⟨stats, hstats, hsent⟩
    have hrestores := hgreeted.restores
    have honline : state = .connected ∨ state = .authenticating :=
      hgreeted.restores.imp And.left And.left
    have hgreeted := inv_greeted h hstate honline
    have hconnected : (c.greeted state).connected = true := by
      rcases honline with rfl | rfl <;> rfl
    have hinv := hgreeted.sent hconnected hsent
    have hheld : c'.putsToAck = c.putsToAck := by rw [hsent.frame]; rfl
    have hout : c'.puts = c.puts ++ [] :=
      hsent.puts.trans (List.append_nil _).symm
    have hqueries : c'.queries = c.queries := by rw [hsent.frame]; rfl
    have hnone : c.waiting = [] := by
      cases h.phase with
      | disconnected _ _ hnil => exact congrArg (List.map Prod.snd) hnil
      | gettingToken _ _ hnil => exact congrArg (List.map Prod.snd) hnil
      | connecting _ _ hnil => exact congrArg (List.map Prod.snd) hnil
      | online hnot => simp [FPersistentConnection.connected, hstate] at hnot
    have hwaiting : c'.waiting = stats ++ added := by
      rw [hsent.waiting]
      exact congrArg (· ++ (stats ++ added)) hnone
    have hputs : c'.putsSent = added.filterMap RequestCallback.putIndex := by
      rw [hsent.putsSent, List.filterMap_append]
      rcases hstats with rfl | rfl <;> rfl
    refine ⟨_, hc, Handled.of_same c _ ?_ rfl (by simp) hheld hout hqueries ?_⟩
    · exact ⟨{ hinv.counted with }, hinv.blocks, hinv.phase.congr rfl rfl rfl rfl rfl rfl rfl⟩
    · rcases hrestores with ⟨rfl, rfl⟩ | ⟨rfl, rfl⟩
      · rw [putIndex_restored] at hputs
        exact .greeted stats hstats hsent.connectionState hwaiting hputs hsent.keys hsent.putCounter
      · exact .challenged stats hstats hsent.connectionState hwaiting hputs hsent.keys
          hsent.putCounter

/-!
## Answers
-/

theorem waiting_taken (h : c.Inv) {rn : Nat} {callback : RequestCallback Block}
    (hcallback : c.callbackFor rn = some callback) :
    exists front back, c.waiting = front ++ callback :: back ∧
      (c.taken rn).waiting = front ++ back := by
  rcases Numbered.split_of_lookup h.counted.increasing hcallback with
    ⟨front, back, hhash, hremoved⟩
  refine ⟨front.map Prod.snd, back.map Prod.snd, ?_, ?_⟩
  · rw [waiting, hhash, List.map_append, List.map_cons]
  · rw [waiting, taken, hremoved, List.map_append]

theorem Inv.online_of_callback (h : c.Inv) {rn : Nat} {callback : RequestCallback Block}
    (hcallback : c.callbackFor rn = some callback) : c.connected = true := by
  apply h.connected_of_waiting
  intro hnil
  rw [callbackFor, hnil] at hcallback
  cases hcallback

theorem counted_taken (h : c.Inv) {rn : Nat} {callback : RequestCallback Block}
    (hcallback : c.callbackFor rn = some callback) :
    Counted
      { c.taken rn with
        unackedListensCount := c.unackedListensCount - if callback.isListen then 1 else 0 } := by
  rcases waiting_taken h hcallback with ⟨front, back, hbefore, hafter⟩
  have hsub := Numbered.remove_sublist c.requestCBHash rn
  have hcount : c.waiting.countP RequestCallback.isListen =
      (c.taken rn).waiting.countP RequestCallback.isListen +
        if callback.isListen then 1 else 0 := by
    rw [hbefore, hafter, List.countP_append, List.countP_append, List.countP_cons]
    omega
  constructor
  case increasing => exact h.counted.increasing.sublist hsub
  case below => exact h.counted.below.sublist hsub
  case unacked =>
    have hunacked := h.counted.unacked
    have hdone : c.unackedListensCount - (if callback.isListen then 1 else 0) =
        ((c.taken rn).waiting.countP RequestCallback.isListen : Int) := by
      rw [hunacked, hcount]
      split <;> simp
    exact hdone
  case indices => exact h.counted.indices
  case indexed => exact h.counted.indexed

theorem blocks_taken (h : c.Inv) (rn : Nat) : (c.taken rn).Blocks :=
  h.blocks.sublist h.counted (List.Sublist.refl _) (Numbered.remove_sublist _ _) rfl

theorem phase_taken (h : c.Inv) {rn : Nat} {callback : RequestCallback Block}
    (hcallback : c.callbackFor rn = some callback) : (c.taken rn).Phase := by
  have hconnected := h.online_of_callback hcallback
  rcases h.online hconnected with ⟨hready, hscheduled, hresumed, hfetched⟩
  exact .online hconnected hready hscheduled hresumed hfetched

theorem inv_taken (h : c.Inv) {rn : Nat} {callback : RequestCallback Block}
    (hcallback : c.callbackFor rn = some callback) (hlisten : callback.isListen = false) :
    (c.taken rn).Inv := by
  have hcounted := counted_taken h hcallback
  rw [hlisten, if_neg (by decide), Int.sub_zero] at hcounted
  exact ⟨hcounted, blocks_taken h rn, phase_taken h hcallback⟩

theorem block_of_callback (h : c.Inv) {rn index : Nat} {onComplete : Block}
    (hcallback : c.callbackFor rn = some (.put index onComplete))
    {put : FOutstandingPut Data Block} (hput : c.outstandingPut index = some put) :
    put.onCompleteBlock = onComplete := by
  have hmem : .put index onComplete ∈ c.waiting :=
    List.mem_map.mpr ⟨_, Numbered.mem_of_lookup hcallback, rfl⟩
  have hfound : c.putCallback index = some (.put index put.onCompleteBlock) := by
    rw [putCallback, hput]
    rfl
  have heq := (h.blocks index onComplete hmem).right _ hfound
  cases heq
  rfl

/-- What is left when a put is answered, with the answers that are held back. -/
def settled (c : FPersistentConnection Data Block) (rn index : Nat)
    (putsToAck : List (FTupleCallbackStatus Block)) : FPersistentConnection Data Block :=
  { c.taken rn with
    outstandingPuts := Numbered.remove c.outstandingPuts index
    putsToAck := putsToAck }

theorem putAnswered_eq (rn : Nat) {index : Nat} {put : FOutstandingPut Data Block}
    (hput : c.outstandingPut index = some put) (onComplete : Block) (status : String)
    (errorReason : Option String) :
    (c.taken rn).putAnswered index onComplete status errorReason =
      if c.unackedListensCount = 0 then
        (c.settled rn index c.putsToAck, [.onComplete onComplete status errorReason])
      else
        (c.settled rn index (c.putsToAck ++
          [{ block := onComplete, status := status, errorReason := errorReason }]), []) := by
  have hput' : (c.taken rn).outstandingPut index = some put := hput
  rw [putAnswered, hput']
  rfl

theorem putAnswered_answered (h : c.Inv) (rn : Nat) {index : Nat}
    {put : FOutstandingPut Data Block} (hput : c.outstandingPut index = some put)
    (status : String) (errorReason : Option String) :
    Answered c index put
      ((c.taken rn).putAnswered index put.onCompleteBlock status errorReason) := by
  rcases Numbered.split_of_lookup h.counted.indices hput with ⟨front, back, hputs, hremoved⟩
  rw [putAnswered_eq rn hput]
  by_cases hunacked : c.unackedListensCount = 0
  · rw [if_pos hunacked]
    exact ⟨⟨front, back, hputs, hremoved⟩, Or.inl ⟨hunacked, rfl, rfl⟩⟩
  · rw [if_neg hunacked]
    exact ⟨⟨front, back, hputs, hremoved⟩, Or.inr ⟨hunacked, rfl, List.map_append⟩⟩

theorem inv_settled (h : c.Inv) {rn : Nat} {callback : RequestCallback Block}
    (hcallback : c.callbackFor rn = some callback) (hlisten : callback.isListen = false)
    (index : Nat) (putsToAck : List (FTupleCallbackStatus Block)) :
    (c.settled rn index putsToAck).Inv := by
  have hinv := inv_taken h hcallback hlisten
  have hsub := Numbered.remove_sublist c.outstandingPuts index
  exact
    ⟨{ hinv.counted with
        indices := h.counted.indices.sublist hsub
        indexed := h.counted.indexed.sublist hsub },
      hinv.blocks.sublist hinv.counted hsub (List.Sublist.refl _) rfl,
      hinv.phase.congr rfl rfl rfl rfl rfl rfl rfl⟩

theorem keys_settled (c : FPersistentConnection Data Block) (rn index : Nat)
    (putsToAck : List (FTupleCallbackStatus Block)) (onComplete : Block) :
    (c.settled rn index putsToAck).keys = c.keys.filter fun key =>
      (RequestCallback.put index onComplete).putIndex != some key := by
  rw [keys, keys, List.filter_map]
  congr 1
  refine List.filter_congr fun entry _ => ?_
  rw [Bool.eq_iff_iff, bne_iff_ne, Function.comp_apply, bne_iff_ne]
  simp [RequestCallback.putIndex, eq_comm]

theorem putAnswered_spec (h : c.Inv) {rn index : Nat} {onComplete : Block}
    (hcallback : c.callbackFor rn = some (.put index onComplete)) (status : String)
    (errorReason : Option String) :
    Handled c (.onResponse rn status errorReason)
      ((c.taken rn).putAnswered index onComplete status errorReason) := by
  have hinv := inv_taken h hcallback rfl
  cases hput : c.outstandingPut index with
  | none =>
      have hignored : (c.taken rn).putAnswered index onComplete status errorReason =
          (c.taken rn, []) := by
        have hput' : (c.taken rn).outstandingPut index = none := hput
        rw [putAnswered, hput']
      rw [hignored]
      have hkeys : c.keys = c.keys.filter fun key =>
          (RequestCallback.put index onComplete).putIndex != some key := by
        refine (List.filter_eq_self.mpr fun key hkey => ?_).symm
        apply bne_iff_ne.mpr
        intro heq
        cases heq
        exact Numbered.lookup_eq_none_iff.mp hput hkey
      exact Handled.quiet c _ hinv rfl (List.append_nil _).symm rfl
        (.answered rn _ hcallback rfl (by simp) rfl rfl rfl hkeys rfl)
  | some put =>
      cases block_of_callback h hcallback hput
      constructor
      case settles =>
        exact .answered rn status errorReason index put rfl hcallback hput
          (putAnswered_answered h rn hput status errorReason)
      all_goals
        rw [putAnswered_eq rn hput]
        split
      case inv.isTrue => exact inv_settled h hcallback rfl index _
      case inv.isFalse => exact inv_settled h hcallback rfl index _
      case tells.isTrue =>
        intro huncancelled hstatus
        refine ⟨huncancelled, fun block reason hmem => ?_⟩
        rcases Call.onComplete.inj (List.mem_singleton.mp hmem) with ⟨_, heq, _⟩
        exact hstatus heq.symm
      case tells.isFalse =>
        intro huncancelled hstatus
        refine ⟨?_, fun block reason hmem => absurd hmem List.not_mem_nil⟩
        intro ack hack
        rcases List.mem_append.mp hack with hack | hack
        · exact huncancelled ack hack
        · rw [List.mem_singleton.mp hack]
          exact hstatus
      case moves.isTrue =>
        exact .answered rn _ hcallback rfl (by simp) rfl rfl rfl (keys_settled c rn index _ _) rfl
      case moves.isFalse =>
        exact .answered rn _ hcallback rfl (by simp) rfl rfl rfl (keys_settled c rn index _ _) rfl
      case listened.isTrue =>
        exact Listened.of_same (c := c.settled rn index _) rfl (by simp)
      case listened.isFalse =>
        exact Listened.of_same (c := c.settled rn index _) rfl (by simp)

theorem listened_answer (c : FPersistentConnection Data Block) (listenSpec : FOutstandingQuery)
    (status : String) {calls : List (Call Data Block)}
    (hcalls : forall query status, .onListenComplete query status ∉ calls) :
    Listened c.queries
      (if c.outstandingQuery listenSpec.query == some listenSpec &&
          status != kFWPResponseForActionStatusOk then c.removeListen listenSpec.query else c,
        (if c.outstandingQuery listenSpec.query == some listenSpec then
          [.onListenComplete listenSpec.query status] else []) ++ calls) := by
  cases hcurrent : c.outstandingQuery listenSpec.query == some listenSpec with
  | false => exact Listened.of_same rfl (by simpa using hcalls)
  | true =>
      have hmem : listenSpec.query ∈ c.queries :=
        List.mem_map.mpr ⟨listenSpec, List.mem_of_find?_eq_some (beq_iff_eq.mp hcurrent), rfl⟩
      have hcall : forall query status', .onListenComplete query status' ∈
          ([.onListenComplete listenSpec.query status] ++ calls : List (Call Data Block)) ->
          query = listenSpec.query ∧ status' = status := by
        intro query status' hcall
        rcases List.mem_append.mp hcall with hcall | hcall
        · cases List.mem_singleton.mp hcall
          exact ⟨rfl, rfl⟩
        · exact absurd hcall (hcalls query status')
      constructor
      case known =>
        intro query status' hquery
        rw [(hcall query status' hquery).left]
        exact hmem
      case kept =>
        intro query
        by_cases hok : status = kFWPResponseForActionStatusOk
        · have hkept : (true && status != kFWPResponseForActionStatusOk) = false := by
            simp [hok]
          rw [hkept]
          refine ⟨fun h => ⟨h, ?_⟩, fun h => h.left⟩
          intro status' hquery
          exact (hcall query status' hquery).right.trans hok
        · have hgone : (true && status != kFWPResponseForActionStatusOk) = true := by
            simp [hok]
          rw [hgone]
          show query ∈ (c.removeListen listenSpec.query).queries <-> _
          rw [queries_removeListen, List.mem_filter]
          refine and_congr_right fun _ => ?_
          constructor
          · intro hne status' hquery
            rw [(hcall query status' hquery).left] at hne
            simp at hne
          · intro hall
            apply bne_iff_ne.mpr
            rintro rfl
            exact hok (hall status (List.mem_append_left _ List.mem_cons_self))

theorem ackPuts_listens (c : FPersistentConnection Data Block) :
    forall query status, .onListenComplete query status ∉ c.ackPuts.2 := by
  intro query status hmem
  rcases List.mem_map.mp hmem with ⟨put, _, hcall⟩
  cases hcall

/-- The connection when a listen is answered, before the puts held back are. -/
def listenTaken (c : FPersistentConnection Data Block) (rn : Nat) (listenSpec : FOutstandingQuery)
    (status : String) : FPersistentConnection Data Block :=
  { c.taken rn with
    listens :=
      if c.outstandingQuery listenSpec.query == some listenSpec &&
          status != kFWPResponseForActionStatusOk then
        (c.removeListen listenSpec.query).listens
      else
        c.listens
    unackedListensCount := c.unackedListensCount - 1 }

def listenCalls (c : FPersistentConnection Data Block) (listenSpec : FOutstandingQuery)
    (status : String) : List (Call Data Block) :=
  if c.outstandingQuery listenSpec.query == some listenSpec then
    [.onListenComplete listenSpec.query status]
  else
    []

theorem completed_listenCalls (c : FPersistentConnection Data Block)
    (listenSpec : FOutstandingQuery) (status : String) :
    completed (c.listenCalls listenSpec status) = [] := by
  unfold listenCalls
  split <;> rfl

theorem listenAnswered_eq (c : FPersistentConnection Data Block) (rn : Nat)
    (listenSpec : FOutstandingQuery) (status : String) :
    (c.taken rn).listenAnswered listenSpec status =
      if (c.listenTaken rn listenSpec status).unackedListensCount < 0 then none
      else if (c.listenTaken rn listenSpec status).unackedListensCount = 0 then
        some ((c.listenTaken rn listenSpec status).ackPuts.1,
          c.listenCalls listenSpec status ++ (c.listenTaken rn listenSpec status).ackPuts.2)
      else some (c.listenTaken rn listenSpec status, c.listenCalls listenSpec status) := by
  have hsame : (c.taken rn).outstandingQuery listenSpec.query =
      c.outstandingQuery listenSpec.query := rfl
  unfold listenAnswered
  simp only [hsame, listenTaken, listenCalls]
  split <;> rfl

theorem listenTaken_listened (c : FPersistentConnection Data Block) (rn : Nat)
    (listenSpec : FOutstandingQuery) (status : String) {calls : List (Call Data Block)}
    (hcalls : forall query status, .onListenComplete query status ∉ calls) :
    Listened c.queries
      (c.listenTaken rn listenSpec status, c.listenCalls listenSpec status ++ calls) := by
  have hlistened := listened_answer c listenSpec status hcalls
  have hqueries : (c.listenTaken rn listenSpec status).queries =
      (if c.outstandingQuery listenSpec.query == some listenSpec &&
          status != kFWPResponseForActionStatusOk then c.removeListen listenSpec.query else c
        ).queries := by
    unfold listenTaken queries
    split <;> rfl
  refine ⟨hlistened.known, fun query => ?_⟩
  show query ∈ (c.listenTaken rn listenSpec status).queries <-> _
  rw [hqueries]
  exact hlistened.kept query

section ListenAnswered

variable {rn : Nat} {listenSpec : FOutstandingQuery}

theorem inv_listenTaken (h : c.Inv) (hcallback : c.callbackFor rn = some (.listen listenSpec))
    (status : String) : (c.listenTaken rn listenSpec status).Inv := by
  have hcounted : Counted
      { c.taken rn with unackedListensCount := c.unackedListensCount - 1 } :=
    counted_taken h hcallback
  exact ⟨{ hcounted with }, blocks_taken h rn,
    (phase_taken h hcallback).congr rfl rfl rfl rfl rfl rfl rfl⟩

theorem unacked_listenTaken (h : c.Inv)
    (hcallback : c.callbackFor rn = some (.listen listenSpec)) (status : String) :
    0 ≤ (c.listenTaken rn listenSpec status).unackedListensCount := by
  rw [(inv_listenTaken h hcallback status).counted.unacked]
  exact Int.natCast_nonneg _

theorem keys_listen (c : FPersistentConnection Data Block) (listenSpec : FOutstandingQuery) :
    c.keys = c.keys.filter fun key =>
      (RequestCallback.listen listenSpec : RequestCallback Block).putIndex != some key :=
  (List.filter_eq_self.mpr fun _ _ => rfl).symm

theorem listenAnswered_kept (h : c.Inv) (hcallback : c.callbackFor rn = some (.listen listenSpec))
    (status : String) (errorReason : Option String) :
    Handled c (.onResponse rn status errorReason)
      (c.listenTaken rn listenSpec status, c.listenCalls listenSpec status) := by
  have hcompleted := completed_listenCalls c listenSpec status
  constructor
  case inv => exact inv_listenTaken h hcallback status
  case settles => exact Settles.kept hcompleted rfl (List.append_nil _).symm
  case tells => exact Tells.of_same rfl hcompleted
  case moves =>
    exact .answered rn _ hcallback rfl (by simp) rfl rfl rfl (keys_listen c listenSpec) rfl
  case listened =>
    have hlistened := listenTaken_listened c rn listenSpec status
      (fun _ _ hmem => absurd hmem List.not_mem_nil)
    rw [List.append_nil] at hlistened
    exact hlistened

/-- The last listen is answered, and with it the puts that were held back. -/
theorem listenAnswered_released (h : c.Inv)
    (hcallback : c.callbackFor rn = some (.listen listenSpec)) (status : String)
    (errorReason : Option String) :
    Handled c (.onResponse rn status errorReason)
      ((c.listenTaken rn listenSpec status).ackPuts.1,
        c.listenCalls listenSpec status ++ (c.listenTaken rn listenSpec status).ackPuts.2) := by
  have hcompleted := completed_listenCalls c listenSpec status
  have htaken := inv_listenTaken h hcallback status
  constructor
  case inv =>
    exact ⟨{ htaken.counted with }, htaken.blocks,
      htaken.phase.congr rfl rfl rfl rfl rfl rfl rfl⟩
  case settles =>
    refine Settles.acked rfl ?_ rfl rfl
    have hacks : completed (c.listenTaken rn listenSpec status).ackPuts.2 = c.held := by
      simp [completed, ackPuts, held, List.filterMap_map, listenTaken, taken]
    rw [completed, List.filterMap_append]
    exact (congrArg₂ (· ++ ·) hcompleted hacks).trans (List.nil_append _)
  case tells =>
    intro huncancelled _
    refine ⟨fun put hput => absurd hput List.not_mem_nil, ?_⟩
    intro block reason hmem
    rcases List.mem_append.mp hmem with hmem | hmem
    · exact not_told hcompleted block _ reason hmem
    · rcases List.mem_map.mp hmem with ⟨put, hput, hcall⟩
      rcases Call.onComplete.inj hcall with ⟨_, hstatus, _⟩
      exact huncancelled put hput hstatus
  case moves =>
    exact .answered rn _ hcallback rfl (by simp) rfl rfl rfl (keys_listen c listenSpec) rfl
  case listened =>
    have hlistened := listenTaken_listened c rn listenSpec status
      (c.listenTaken rn listenSpec status).ackPuts_listens
    exact ⟨hlistened.known, hlistened.kept⟩

/-- The puts held back are answered when no listen is left without its answer. -/
theorem listenAnswered_spec (h : c.Inv) (hcallback : c.callbackFor rn = some (.listen listenSpec))
    (status : String) (errorReason : Option String) :
    exists r, (c.taken rn).listenAnswered listenSpec status = some r ∧
      Handled c (.onResponse rn status errorReason) r := by
  rw [listenAnswered_eq, if_neg (Int.not_lt.mpr (unacked_listenTaken h hcallback status))]
  by_cases hzero : (c.listenTaken rn listenSpec status).unackedListensCount = 0
  · rw [if_pos hzero]
    exact ⟨_, rfl, listenAnswered_released h hcallback status errorReason⟩
  · rw [if_neg hzero]
    exact ⟨_, rfl, listenAnswered_kept h hcallback status errorReason⟩

end ListenAnswered

theorem authAnswered_spec (h : c.Inv) {rn : Nat} {restoreStateAfterComplete : Bool}
    (hcallback : c.callbackFor rn = some (.auth restoreStateAfterComplete)) (status : String)
    (errorReason : Option String) :
    exists r, (c.taken rn).authAnswered restoreStateAfterComplete status = some r ∧
      Handled c (.onResponse rn status errorReason) r := by
  let authenticated : FPersistentConnection Data Block :=
    { c.taken rn with connectionState := .connected }
  have htaken := inv_taken h hcallback rfl
  rcases h.online (h.online_of_callback hcallback) with ⟨hready, hscheduled, hresumed, hfetched⟩
  have hinv : authenticated.Inv :=
    ⟨{ htaken.counted with }, htaken.blocks, .online rfl hready hscheduled hresumed hfetched⟩
  have hout : authenticated.puts = c.puts ++ [] := (List.append_nil _).symm
  unfold authAnswered
  by_cases hok : status = kFWPResponseForActionStatusOk
  · rw [if_pos hok]
    cases restoreStateAfterComplete with
    | false =>
        exact ⟨_, rfl, Handled.quiet c authenticated hinv rfl hout rfl
          (.authenticated rn false hcallback rfl rfl (List.append_nil _).symm
            (List.append_nil _).symm rfl rfl)⟩
    | true =>
        rcases restoreState_spec (c := authenticated) hready rfl hinv.counted with
          ⟨c', hsent, hc'⟩
        have hafter := hinv.sent rfl hsent
        have hheld : c'.putsToAck = c.putsToAck := by rw [hsent.frame]; rfl
        have hqueries : c'.queries = c.queries := by rw [hsent.frame]; rfl
        have hputs := hsent.putsSent
        rw [putIndex_restored] at hputs
        refine ⟨({ c' with onDisconnectQueue := [] }, []), ?_, ?_⟩
        · have hrestore : authenticated.restoreState.map
              (fun c'' => (c'', ([] : List (Call Data Block)))) =
                some ({ c' with onDisconnectQueue := [] }, []) := by
            rw [hc']
            rfl
          exact hrestore
        · exact Handled.quiet c _ ⟨{ hafter.counted with }, hafter.blocks,
            hafter.phase.congr rfl rfl rfl rfl rfl rfl rfl⟩ hheld
            (hsent.puts.trans hout) hqueries
            (.authenticated rn true hcallback rfl hsent.connectionState hsent.waiting hputs
              hsent.keys hsent.putCounter)
  · rw [if_neg hok]
    rcases hready with ⟨conn, hconn, _⟩
    let refused : FPersistentConnection Data Block := { authenticated with authToken := none }
    have hclose : refused.closeRealtime = refused.onDisconnect := by
      have hconn' : refused.realtime = some conn := hconn
      rw [closeRealtime, hconn']
    refine ⟨_, hclose.trans (onDisconnect_eq refused), ?_⟩
    exact dropped_spec (c := refused) h.counted.indices h.counted.indexed hscheduled rfl rfl rfl rfl

theorem onResponse_spec (h : c.Inv) (rn : Nat) (status : String) (errorReason : Option String) :
    exists r, c.onResponse rn status errorReason = some r ∧
      Handled c (.onResponse rn status errorReason) r := by
  have hout : c.puts = c.puts ++ [] := (List.append_nil _).symm
  have hkeys : c.keys = c.keys.filter fun key => (none : Option Nat) != some key :=
    (List.filter_eq_self.mpr fun _ _ => rfl).symm
  unfold onResponse
  cases hcallback : c.callbackFor rn with
  | none =>
      exact ⟨_, rfl, Handled.quiet c c h rfl hout rfl
        (.same rfl rfl rfl (List.suffix_refl _) rfl)⟩
  | some callback =>
      cases callback with
      | auth restore => exact authAnswered_spec h hcallback status errorReason
      | put index onComplete => exact ⟨_, rfl, putAnswered_spec h hcallback status errorReason⟩
      | listen listenSpec => exact listenAnswered_spec h hcallback status errorReason
      | onDisconnect block =>
          exact ⟨_, rfl, Handled.of_same c (c.taken rn) (inv_taken h hcallback rfl) rfl (by simp)
            rfl hout rfl (.answered rn _ hcallback rfl (by simp) rfl rfl rfl hkeys rfl)⟩
      | stats =>
          exact ⟨_, rfl, Handled.quiet c (c.taken rn) (inv_taken h hcallback rfl) rfl hout rfl
            (.answered rn _ hcallback rfl (by simp) rfl rfl rfl hkeys rfl)⟩

theorem onDataPush_spec (h : c.Inv) (push : DataPush Data) :
    exists r, c.onDataPushWithAction push = some r ∧ Handled c (.onDataPush push) r := by
  have hout : c.puts = c.puts ++ [] := (List.append_nil _).symm
  have hsame : Moves c (.onDataPush push) c := .same rfl rfl rfl (List.suffix_refl _) rfl
  cases push with
  | dataUpdate data => exact ⟨_, rfl, Handled.of_same c c h rfl (by simp) rfl hout rfl hsame⟩
  | authRevoked =>
      exact closeRealtime_spec h none rfl rfl
  | listenRevoked query =>
      have hnone : completed ((c.listens.filter fun listen => listen.query == query).map
          fun listen => (.onListenComplete listen.query "permission_denied" :
            Call Data Block)) = [] := by
        simp [completed, List.filterMap_map]
      refine ⟨_, rfl, inv_removeListen h query, .kept hnone rfl hout, Tells.of_same rfl hnone,
        .same rfl rfl rfl (List.suffix_refl _) rfl, ?_⟩
      · have hcall : forall query' status, .onListenComplete query' status ∈
            ((c.listens.filter fun listen => listen.query == query).map fun listen =>
              (.onListenComplete listen.query "permission_denied" : Call Data Block)) ->
            query' = query ∧ status = "permission_denied" ∧ query ∈ c.queries := by
          intro query' status hmem
          rcases List.mem_map.mp hmem with ⟨listen, hlisten, hcall⟩
          rcases List.mem_filter.mp hlisten with ⟨hlisten, heq⟩
          cases hcall
          have heq := beq_iff_eq.mp heq
          exact ⟨heq, rfl, heq ▸ List.mem_map.mpr ⟨listen, hlisten, rfl⟩⟩
        constructor
        case known =>
          intro query' status hmem
          rcases hcall query' status hmem with ⟨rfl, _, hquery⟩
          exact hquery
        case kept =>
          intro query'
          rw [queries_removeListen, List.mem_filter]
          refine and_congr_right fun hquery => ?_
          constructor
          · intro hne status hmem
            exact absurd (hcall query' status hmem).left (bne_iff_ne.mp hne)
          · intro hall
            apply bne_iff_ne.mpr
            rintro rfl
            rcases List.mem_map.mp hquery with ⟨listen, hlisten, rfl⟩
            have hmem : Call.onListenComplete listen.query "permission_denied" ∈
                ((c.listens.filter fun l => l.query == listen.query).map fun l =>
                  (.onListenComplete l.query "permission_denied" : Call Data Block)) :=
              List.mem_map.mpr ⟨listen, List.mem_filter.mpr ⟨hlisten, beq_self_eq_true _⟩, rfl⟩
            exact absurd (hall _ hmem) (by decide)
  | other => exact ⟨_, rfl, Handled.quiet c c h rfl hout rfl hsame⟩

/-!
## Every run
-/

/-- The repo listens once to a query, and the server sends no error. -/
def Allowed (c : FPersistentConnection Data Block) : Event Data Block -> Prop
  | .listen query => query ∉ c.queries
  | .onRequestError => False
  | _ => True

instance Allowed.decidable (c : FPersistentConnection Data Block) (e : Event Data Block) :
    Decidable (c.Allowed e) := by
  cases e <;> unfold Allowed <;> infer_instance

theorem outstandingQuery_of_not_mem {query : List String} (h : query ∉ c.queries) :
    c.outstandingQuery query = none := by
  apply List.find?_eq_none.mpr
  intro listen hlisten heq
  exact h (List.mem_map.mpr ⟨listen, hlisten, beq_iff_eq.mp heq⟩)

theorem step_spec (h : c.Inv) {e : Event Data Block} (hallowed : c.Allowed e) :
    exists r, c.step e = some r ∧ Handled c e r := by
  have hquietly : forall {handler : Option (FPersistentConnection Data Block)},
      (exists c', handler = some c' ∧ Handled c e (c', [])) ->
      exists r, quietly handler = some r ∧ Handled c e r := by
    rintro _ ⟨c', rfl, hhandled⟩
    exact ⟨_, rfl, hhandled⟩
  cases e with
  | listen query => exact hquietly (listen_spec h (outstandingQuery_of_not_mem hallowed))
  | unlisten query => exact hquietly (unlisten_spec h query)
  | putData data hash onComplete =>
      exact hquietly (putInternal_spec h .put data hash onComplete rfl rfl)
  | mergeData data onComplete =>
      exact hquietly (putInternal_spec h .merge data none onComplete rfl rfl)
  | onDisconnectAction tuple => exact hquietly (onDisconnectAction_spec h tuple)
  | purgeOutstandingWrites => exact ⟨_, rfl, purgeOutstandingWrites_spec h⟩
  | refreshAuthToken token => exact hquietly (refreshAuthToken_spec h token)
  | interruptForReason reason => exact interruptForReason_spec h reason rfl rfl
  | resumeForReason reason => exact hquietly (resumeForReason_spec h reason)
  | networkReachable => exact hquietly (networkReachable_spec h)
  | retry => exact hquietly (retry_spec h)
  | fetchedToken attempt result => exact hquietly (fetchedToken_spec h attempt result)
  | onHandshake => exact onHandshake_handled h
  | closeRealtime => exact closeRealtime_spec h c.authToken rfl rfl
  | onKill => exact interruptForReason_spec h kFInterruptReasonServerKill rfl rfl
  | onResponse rn status errorReason => exact onResponse_spec h rn status errorReason
  | onRequestError => exact absurd hallowed id
  | onDataPush push => exact onDataPush_spec h push

/-- No put is lost, and none is completed that was not issued. -/
theorem Settles.accounts {e : Event Data Block}
    {r : FPersistentConnection Data Block × List (Call Data Block)} (h : Settles c e r) :
    (c.held ++ c.outstanding ++ e.issued).Perm (completed r.2 ++ r.1.held ++ r.1.outstanding) := by
  cases h with
  | kept hcalls hheld hputs =>
      rw [hcalls, hheld, List.nil_append, outstanding_eq r.1, hputs, putsAfter, List.map_append,
        ← outstanding_eq c, List.map_map, List.append_assoc]
      rfl
  | answered rn status errorReason index put he hcallback hput hanswered =>
      rcases hanswered.puts with ⟨front, back, hput, hput'⟩
      have hissued : e.issued = [] := by
        rw [he]
        rfl
      have hout : c.outstanding.Perm (put.onCompleteBlock :: r.1.outstanding) := by
        rw [outstanding, outstanding, hput, hput', List.map_append, List.map_append, List.map_cons]
        exact List.perm_middle
      rw [hissued, List.append_nil]
      have hmove : (c.held ++ c.outstanding).Perm
          (c.held ++ put.onCompleteBlock :: r.1.outstanding) := hout.append_left c.held
      rcases hanswered.calls with ⟨_, hcalls, hheld⟩ | ⟨_, hcalls, hheld⟩
      · rw [hcalls, hheld, List.append_assoc]
        exact hmove.trans List.perm_middle
      · rw [hcalls, hheld, List.nil_append, List.append_assoc]
        exact hmove
  | acked hissued hcalls hheld hout =>
      rw [hissued, hcalls, hheld, List.append_nil, List.append_nil, outstanding, outstanding, hout]
  | dropped hissued hcalls hheld hout =>
      have hsplit : ((c.outstandingPuts.filter isSentTransaction).map
            (fun entry => entry.2.onCompleteBlock) ++ r.1.outstanding).Perm c.outstanding := by
        rw [outstanding, hout, ← List.map_append]
        exact (List.filter_append_perm _ _).map _
      rw [hissued, hcalls, hheld, List.append_nil, List.append_assoc]
      exact ((hsplit.symm.append_left c.held).trans (List.perm_append_comm_assoc _ _ _))
  | purged hissued hcalls hheld hout =>
      rw [hissued, hcalls, hheld, outstanding, outstanding, hout]
      simp

end FPersistentConnection

open FPersistentConnection in
/-- A connection, with the blocks of the puts it was given and of those it completed. -/
structure Session (Data Block : Type) where
  connection : FPersistentConnection Data Block
  issued : List Block
  completed : List Block

namespace Session

open FPersistentConnection

variable {Data Block : Type}

def init : Session Data Block where
  connection := FPersistentConnection.init
  issued := []
  completed := []

def after (session : Session Data Block) (e : Event Data Block)
    (r : FPersistentConnection Data Block × List (Call Data Block)) : Session Data Block where
  connection := r.1
  issued := session.issued ++ e.issued
  completed := session.completed ++ FPersistentConnection.completed r.2

def step (session : Session Data Block) (e : Event Data Block) : Option (Session Data Block) :=
  (session.connection.step e).map (session.after e)

def Allowed (session : Session Data Block) (e : Event Data Block) : Prop :=
  session.connection.Allowed e

instance Allowed.decidable (session : Session Data Block) (e : Event Data Block) :
    Decidable (session.Allowed e) :=
  inferInstanceAs (Decidable (session.connection.Allowed e))

/-- Each put issued is completed, or held back, or outstanding. -/
def Accounted (session : Session Data Block) : Prop :=
  session.issued.Perm
    (session.completed ++ session.connection.held ++ session.connection.outstanding)

structure Inv (session : Session Data Block) : Prop where
  connection : session.connection.Inv
  accounts : session.Accounted

theorem inv_init : (init : Session Data Block).Inv where
  connection := FPersistentConnection.inv_init
  accounts := List.Perm.refl _

theorem step_spec {session : Session Data Block} (h : session.Inv) {e : Event Data Block}
    (hallowed : session.Allowed e) :
    exists r, session.step e = some (session.after e r) ∧ (session.after e r).Inv ∧
      Handled session.connection e r := by
  rcases FPersistentConnection.step_spec h.connection hallowed with ⟨r, hr, hhandled⟩
  refine ⟨r, congrArg (Option.map _) hr, ⟨hhandled.inv, ?_⟩, hhandled⟩
  have hissued := h.accounts.append_right e.issued
  rw [List.append_assoc session.completed, List.append_assoc] at hissued
  have hsettled := hhandled.settles.accounts.append_left session.completed
  rw [List.append_assoc, ← List.append_assoc, ← List.append_assoc] at hsettled
  exact hissued.trans (by simpa [after] using hsettled)

theorem along_inv {es : List (Event Data Block)} (hes : Runs.Guarded step Allowed init es) :
    Runs.Along step Inv init es := by
  have halong := Runs.along_of_guarded (C := fun _ => True)
    (fun session e hinv _ hallowed => by
      rcases step_spec hinv hallowed with ⟨r, hstep, hinv', _⟩
      exact ⟨_, hstep, fun _ => hinv'⟩)
    inv_init (Runs.always_iff.mpr fun _ _ _ _ _ => trivial) hes
  exact halong.imp fun session h => h.left

/--
The count of the listens that are not answered is right; nothing waits for an
answer unless a connection is ready, and an interrupted client has no connection
and does not look for one.
-/
structure Consistent (session : Session Data Block) : Prop where
  unacked : session.connection.unackedListensCount =
    session.connection.waiting.countP RequestCallback.isListen
  ready : session.connection.waiting ≠ [] -> session.connection.Ready
  interrupted : session.connection.interruptReasons ≠ [] ->
    session.connection.realtime = none ∧ session.connection.scheduledRetry = false

theorem connection_consistent {es : List (Event Data Block)}
    (hes : Runs.Guarded step Allowed init es) : Runs.Along step Consistent init es := by
  apply (along_inv hes).imp
  intro session h
  refine ⟨h.connection.counted.unacked, ?_, ?_⟩
  · intro hwaiting
    apply (h.connection.online (h.connection.connected_of_waiting _)).left
    intro hnil
    rw [waiting, hnil] at hwaiting
    exact hwaiting rfl
  · intro hreasons
    cases h.connection.phase with
    | disconnected _ hrealtime _ hscheduled =>
        refine ⟨hrealtime, Bool.eq_false_iff.mpr fun htrue => hreasons (hscheduled htrue)⟩
    | gettingToken _ _ _ _ hresumed => exact absurd hresumed hreasons
    | connecting _ _ _ _ hresumed => exact absurd hresumed hreasons
    | online _ _ _ hresumed => exact absurd hresumed hreasons

/-- A connection is opened without a token, and the server greets. -/
def connectRun (attempt : Nat) : List (Event String Nat) :=
  [.resumeForReason kFInterruptReasonWaitingForOpen, .retry,
    .fetchedToken attempt (.token none), .onHandshake]

def reconnectedRun : List (Event String Nat) :=
  connectRun 1 ++ [.listen ["pelis"], .putData "Alien" none 7, .closeRealtime,
    .putData "Heat" none 8] ++ connectRun 2

theorem connection_consistent_reconnected :
    Runs.Along step Consistent init reconnectedRun :=
  connection_consistent (by decide +kernel)

/--
Whatever the network does, a put that was issued is completed once, or its answer
is held back, or it is outstanding: none is lost and none is completed twice.
-/
theorem puts_completed_once {es : List (Event Data Block)}
    (hes : Runs.Guarded step Allowed init es) :
    Runs.Along step Accounted init es :=
  (along_inv hes).imp fun _ h => h.accounts

theorem puts_completed_once_reconnected :
    Runs.Along step Accounted init (reconnectedRun ++ [.onResponse 5 "ok" none]) :=
  puts_completed_once (by decide +kernel)

end Session

end Firebase
end MyMovies
