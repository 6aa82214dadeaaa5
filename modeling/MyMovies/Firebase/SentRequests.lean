import MyMovies.Firebase.PersistentConnection

/-!
# Requests that are sent

What a handler leaves that sends requests and nothing else: the requests went
over the connection in order, under new numbers, and a block is kept for each
answer that is awaited.  Restoring the state on a new connection is such a handler.
-/

namespace MyMovies
namespace Firebase

open Foundation

namespace RequestCallback

variable {Block : Type}

def isListen : RequestCallback Block -> Bool
  | .listen _ => true
  | _ => false

def putIndex : RequestCallback Block -> Option Nat
  | .put index _ => some index
  | _ => none

end RequestCallback

def Request.putIndex {Data : Type} : Request Data -> Option Nat
  | .put index _ _ _ => some index
  | _ => none

/-- The puts that went over the connection. -/
def FConnection.putsSent {Data : Type} (conn : FConnection Data) : List Nat :=
  conn.sent.filterMap fun entry => entry.2.putIndex

namespace FPersistentConnection

variable {Data Block : Type} {c c' c'' : FPersistentConnection Data Block}

/-- The blocks that wait for an answer. -/
def waiting (c : FPersistentConnection Data Block) : List (RequestCallback Block) :=
  c.requestCBHash.map Prod.snd

/-- A put as it was issued, without the mark that it was sent. -/
def unsent (entry : Nat × FOutstandingPut Data Block) : Nat × FOutstandingPut Data Block :=
  (entry.1, { entry.2 with sent := false })

/-- The numbers and the count that the connection keeps. -/
structure Counted (c : FPersistentConnection Data Block) : Prop where
  increasing : Numbered.Increasing c.requestCBHash
  below : Numbered.Below c.requestCBHash c.requestNumber
  unacked : c.unackedListensCount = c.waiting.countP RequestCallback.isListen
  indices : Numbered.Increasing c.outstandingPuts
  indexed : Numbered.Below c.outstandingPuts c.putCounter

/-- The block that is kept for a put when it is sent. -/
def putCallback (c : FPersistentConnection Data Block) (index : Nat) :
    Option (RequestCallback Block) :=
  (c.outstandingPut index).map fun put => .put index put.onCompleteBlock

theorem putCallback_of_puts
    (h : c'.outstandingPuts.map unsent = c.outstandingPuts.map unsent) (index : Nat) :
    c'.putCallback index = c.putCallback index := by
  have hlookup : forall puts : List (Nat × FOutstandingPut Data Block),
      (Numbered.lookup puts index).map (fun put => RequestCallback.put index put.onCompleteBlock) =
        (Numbered.lookup (puts.map unsent) index).map fun put =>
          RequestCallback.put index put.onCompleteBlock := by
    intro puts
    have hmap := Numbered.lookup_map (fun put : FOutstandingPut Data Block =>
      { put with sent := false }) puts index
    rw [show puts.map unsent = puts.map fun entry => (entry.1, { entry.2 with sent := false })
      from rfl, hmap, Option.map_map]
    rfl
  rw [putCallback, putCallback, outstandingPut, outstandingPut, hlookup, h, ← hlookup]

/-!
## Sending
-/

/-- What sending requests leaves; `added` are the blocks kept for their answers. -/
structure Sent (c : FPersistentConnection Data Block) (added : List (RequestCallback Block))
    (c' : FPersistentConnection Data Block) : Prop where
  frame : c' =
    { c with
      realtime := c'.realtime
      requestNumber := c'.requestNumber
      requestCBHash := c'.requestCBHash
      unackedListensCount := c'.unackedListensCount
      outstandingPuts := c'.outstandingPuts }
  realtime : exists conn conn', c.realtime = some conn ∧ c'.realtime = some conn' ∧
    conn.ready = true ∧ conn'.ready = true ∧
    conn'.putsSent = conn.putsSent ++ added.filterMap RequestCallback.putIndex
  waiting : c'.waiting = c.waiting ++ added
  blocks : forall index block, .put index block ∈ added ->
    c.putCallback index = some (.put index block)
  puts : c'.outstandingPuts.map unsent = c.outstandingPuts.map unsent
  counted : c.Counted -> c'.Counted

def Ready (c : FPersistentConnection Data Block) : Prop :=
  exists conn, c.realtime = some conn ∧ conn.ready = true

theorem Sent.refl (h : c.Ready) : Sent c [] c := by
  rcases h with ⟨conn, hconn, hready⟩
  exact
    { frame := rfl
      realtime := ⟨conn, conn, hconn, hconn, hready, hready, (List.append_nil _).symm⟩
      waiting := (List.append_nil _).symm
      blocks := fun _ _ h => absurd h List.not_mem_nil
      puts := rfl
      counted := id }

theorem Sent.ready {added : List (RequestCallback Block)} (h : Sent c added c') : c'.Ready := by
  rcases h.realtime with ⟨_, conn', _, hconn', _, hready', _⟩
  exact ⟨conn', hconn', hready'⟩

theorem Sent.trans {added added' : List (RequestCallback Block)} (h : Sent c added c')
    (h' : Sent c' added' c'') : Sent c (added ++ added') c'' := by
  rcases h.realtime with ⟨conn, conn', hconn, hconn', hready, _, hsent⟩
  rcases h'.realtime with ⟨mid, conn'', hmid, hconn'', _, hready'', hsent'⟩
  rw [hconn'] at hmid
  cases hmid
  constructor
  case frame =>
    rw [h'.frame, h.frame]
  case realtime =>
    refine ⟨conn, conn'', hconn, hconn'', hready, hready'', ?_⟩
    rw [hsent', hsent, List.filterMap_append, List.append_assoc]
  case waiting => rw [h'.waiting, h.waiting, List.append_assoc]
  case blocks =>
    intro index block hmem
    rcases List.mem_append.mp hmem with hmem | hmem
    · exact h.blocks index block hmem
    · rw [← putCallback_of_puts h.puts]
      exact h'.blocks index block hmem
  case puts => exact h'.puts.trans h.puts
  case counted => exact fun hcounted => h'.counted (h.counted hcounted)

/-- A request that is sent, with the block kept for its answer. -/
def pushed (c : FPersistentConnection Data Block) (conn : FConnection Data)
    (request : Request Data) (onMessage : Option (RequestCallback Block)) :
    FPersistentConnection Data Block :=
  { c with
    requestNumber := c.requestNumber + 1
    realtime := some { conn with sent := conn.sent ++ [(c.requestNumber, request)] }
    requestCBHash := c.requestCBHash ++ onMessage.toList.map fun callback =>
      (c.requestNumber, callback) }

theorem sendAction_eq {conn : FConnection Data} (hconn : c.realtime = some conn)
    (hready : conn.ready = true) (request : Request Data)
    (onMessage : Option (RequestCallback Block)) :
    c.sendAction request onMessage = some (c.pushed conn request onMessage) := by
  have hsend : sendRequest { c with requestNumber := c.requestNumber + 1 } c.requestNumber request =
      some
        { c with
          requestNumber := c.requestNumber + 1
          realtime := some { conn with sent := conn.sent ++ [(c.requestNumber, request)] } } := by
    simp [sendRequest, hconn, hready]
  rw [sendAction, hsend]
  cases onMessage with
  | none => simp [pushed]
  | some callback => rfl

theorem waiting_pushed (c : FPersistentConnection Data Block) (conn : FConnection Data)
    (request : Request Data) (onMessage : Option (RequestCallback Block)) :
    (c.pushed conn request onMessage).waiting = c.waiting ++ onMessage.toList := by
  simp [waiting, pushed, Function.comp_def]

theorem numbered_pushed (h : c.Counted) (conn : FConnection Data) (request : Request Data)
    (onMessage : Option (RequestCallback Block)) :
    Numbered.Increasing (c.pushed conn request onMessage).requestCBHash ∧
      Numbered.Below (c.pushed conn request onMessage).requestCBHash (c.requestNumber + 1) := by
  cases onMessage with
  | none =>
      have hsame : (c.pushed conn request none).requestCBHash = c.requestCBHash :=
        List.append_nil _
      rw [hsame]
      exact ⟨h.increasing, fun n hn => (h.below n hn).trans (Nat.lt_succ_self _)⟩
  | some callback => exact ⟨h.increasing.append_one h.below _, h.below.append_one _⟩

/-- Sending anything but a listen. -/
theorem sendAction_spec (h : c.Ready) (request : Request Data)
    (onMessage : Option (RequestCallback Block))
    (hput : request.putIndex = onMessage.bind RequestCallback.putIndex)
    (hlisten : onMessage.toList.countP RequestCallback.isListen = 0)
    (hblocks : forall index block, .put index block ∈ onMessage.toList ->
      c.putCallback index = some (.put index block)) :
    exists c', c.sendAction request onMessage = some c' ∧ Sent c onMessage.toList c' := by
  rcases h with ⟨conn, hconn, hready⟩
  refine ⟨_, sendAction_eq hconn hready request onMessage, ?_⟩
  constructor
  case frame => rfl
  case realtime =>
    refine ⟨conn, _, hconn, rfl, hready, hready, ?_⟩
    rw [FConnection.putsSent, FConnection.putsSent, List.filterMap_append]
    congr 1
    cases onMessage with
    | none => simp [hput]
    | some callback => simp [hput, List.filterMap_cons]
  case waiting => exact waiting_pushed c conn request onMessage
  case blocks => exact hblocks
  case puts => rfl
  case counted =>
    intro hcounted
    have hnumbered := numbered_pushed hcounted conn request onMessage
    exact
      { increasing := hnumbered.left
        below := hnumbered.right
        unacked := by
          rw [waiting_pushed, List.countP_append, hlisten]
          exact hcounted.unacked
        indices := hcounted.indices
        indexed := hcounted.indexed }

theorem sendListen_spec (h : c.Ready) (listenSpec : FOutstandingQuery) :
    exists c', c.sendListen listenSpec = some c' ∧ Sent c [.listen listenSpec] c' := by
  rcases h with ⟨conn, hconn, hready⟩
  have hsend := sendAction_eq hconn hready (.listen listenSpec.query) (some (.listen listenSpec))
  have hwaiting := waiting_pushed c conn (.listen listenSpec.query) (some (.listen listenSpec))
  refine ⟨_, by rw [sendListen, hsend]; rfl, ?_⟩
  constructor
  case frame => rfl
  case realtime =>
    refine ⟨conn, _, hconn, rfl, hready, hready, ?_⟩
    simp [FConnection.putsSent, Request.putIndex, RequestCallback.putIndex]
  case waiting => exact hwaiting
  case blocks => simp
  case puts => rfl
  case counted =>
    intro hcounted
    have hnumbered := numbered_pushed hcounted conn (.listen listenSpec.query)
      (some (.listen listenSpec))
    constructor
    case increasing => exact hnumbered.left
    case below => exact hnumbered.right
    case unacked =>
      have hcount : c.unackedListensCount + 1 = ((c.pushed conn (.listen listenSpec.query)
          (some (.listen listenSpec))).waiting.countP RequestCallback.isListen : Int) := by
        rw [hwaiting, List.countP_append, hcounted.unacked]
        rfl
      exact hcount
    case indices => exact hcounted.indices
    case indexed => exact hcounted.indexed

/-!
## Puts
-/

theorem unsent_markSent (index : Nat) (entry : Nat × FOutstandingPut Data Block) :
    unsent (markSent index entry) = unsent entry := by
  unfold markSent
  split <;> rfl

theorem keys_of_unsent {puts puts' : List (Nat × FOutstandingPut Data Block)}
    (h : puts'.map unsent = puts.map unsent) :
    puts'.map Prod.fst = puts.map Prod.fst := by
  have hkeys := congrArg (List.map Prod.fst) h
  rw [List.map_map, List.map_map] at hkeys
  exact hkeys

theorem Counted.of_puts (h : c.Counted) {puts : List (Nat × FOutstandingPut Data Block)}
    (hputs : puts.map unsent = c.outstandingPuts.map unsent) :
    Counted { c with outstandingPuts := puts } :=
  { h with
    indices := h.indices.congr (keys_of_unsent hputs)
    indexed := h.indexed.congr (keys_of_unsent hputs) }

theorem sendPut_spec (h : c.Ready) (hstate : c.connectionState = .connected) {index : Nat}
    {put : FOutstandingPut Data Block} (hput : c.outstandingPut index = some put) :
    exists c', c.sendPut index = some c' ∧ Sent c [.put index put.onCompleteBlock] c' := by
  have hputs : (c.outstandingPuts.map (markSent index)).map unsent =
      c.outstandingPuts.map unsent := by
    rw [List.map_map]
    exact List.map_congr_left fun entry _ => unsent_markSent index entry
  have hready : Ready { c with outstandingPuts := c.outstandingPuts.map (markSent index) } := h
  have hblocks : forall index' block, RequestCallback.put index' block ∈
      (some (RequestCallback.put index put.onCompleteBlock)).toList ->
      c.putCallback index' = some (.put index' block) := by
    intro index' block hmem
    cases List.mem_singleton.mp hmem
    rw [putCallback, hput]
    rfl
  rcases sendAction_spec hready (.put index put.action put.data put.hash)
    (some (.put index put.onCompleteBlock)) rfl rfl (fun index' block hmem =>
      (putCallback_of_puts hputs index').trans (hblocks index' block hmem)) with ⟨c', hc', hsent⟩
  have hsend : c.canSendWrites = true := by
    rw [canSendWrites, hstate]
    rfl
  refine ⟨c', ?_, ?_⟩
  · rw [sendPut, if_pos hsend, hput]
    exact hc'
  · constructor
    case frame => rw [hsent.frame]
    case realtime => exact hsent.realtime
    case waiting => exact hsent.waiting
    case blocks => exact hblocks
    case puts => exact hsent.puts.trans hputs
    case counted => exact fun hcounted => hsent.counted (hcounted.of_puts hputs)

/-!
## Restoring the state
-/

def putCallbacks (c : FPersistentConnection Data Block) : List (RequestCallback Block) :=
  c.outstandingPuts.map fun entry => .put entry.1 entry.2.onCompleteBlock

/-- The blocks that are kept when the state is restored. -/
def restored (c : FPersistentConnection Data Block) : List (RequestCallback Block) :=
  c.listens.map .listen ++ c.putCallbacks ++
    c.onDisconnectQueue.map fun tuple => .onDisconnect tuple.onComplete

theorem Sent.connectionState {added : List (RequestCallback Block)} (h : Sent c added c') :
    c'.connectionState = c.connectionState := by
  rw [h.frame]

/-- Sending one request after the other. -/
theorem run_sent {α : Type} {send : FPersistentConnection Data Block -> α ->
      Option (FPersistentConnection Data Block)}
    {added : α -> List (RequestCallback Block)} {P : FPersistentConnection Data Block -> Prop}
    (hP : forall c added c', P c -> Sent c added c' -> P c')
    (hsend : forall c a, Ready c -> P c -> exists c', send c a = some c' ∧ Sent c (added a) c')
    (hready : c.Ready) (hc : P c) (as : List α) :
    exists c', Runs.run send c as = some c' ∧ Sent c (as.flatMap added) c' := by
  induction as generalizing c with
  | nil => exact ⟨c, rfl, Sent.refl hready⟩
  | cons a rest ih =>
      rcases hsend c a hready hc with ⟨mid, hmid, hfirst⟩
      rcases ih hfirst.ready (hP c _ mid hc hfirst) with ⟨c', hc', hrest⟩
      refine ⟨c', ?_, hfirst.trans hrest⟩
      rw [Runs.run_cons, hmid]
      exact hc'

theorem run_sendListen (h : c.Ready) (listens : List FOutstandingQuery) :
    exists c', Runs.run sendListen c listens = some c' ∧ Sent c (listens.map .listen) c' := by
  rw [List.map_eq_flatMap]
  exact run_sent (P := fun _ => True) (fun _ _ _ _ _ => trivial)
    (fun c listenSpec hready _ => sendListen_spec hready listenSpec) h trivial listens

theorem run_sendOnDisconnectAction (h : c.Ready) (queue : List (FTupleOnDisconnect Data Block)) :
    exists c', Runs.run sendOnDisconnectAction c queue = some c' ∧
      Sent c (queue.map fun tuple => .onDisconnect tuple.onComplete) c' := by
  rw [List.map_eq_flatMap]
  exact run_sent (P := fun _ => True) (fun _ _ _ _ _ => trivial)
    (fun c tuple hready _ => sendAction_spec hready (.onDisconnect tuple.action tuple.data)
      (some (.onDisconnect tuple.onComplete)) rfl rfl (by simp)) h trivial queue

theorem run_sendPut (h : c.Ready) (hstate : c.connectionState = .connected) (keys : List Nat) :
    exists c', Runs.run (fun (c : FPersistentConnection Data Block) key =>
        if (c.outstandingPut key).isSome then c.sendPut key else some c) c keys = some c' ∧
      Sent c (keys.flatMap fun key => (c.putCallback key).toList) c' := by
  apply run_sent (P := fun mid => mid.connectionState = .connected ∧
    mid.outstandingPuts.map unsent = c.outstandingPuts.map unsent) _ _ h ⟨hstate, rfl⟩
  · intro mid added c' hmid hsent
    exact ⟨hsent.connectionState.trans hmid.left, hsent.puts.trans hmid.right⟩
  · intro mid key hready hmid
    rw [← putCallback_of_puts hmid.right, putCallback]
    cases hput : mid.outstandingPut key with
    | none => exact ⟨mid, rfl, Sent.refl hready⟩
    | some put => exact sendPut_spec hready hmid.left hput

theorem sortedKeys_eq (h : c.Counted) : c.sortedKeys = c.outstandingPuts.map Prod.fst :=
  List.Pairwise.insertionSort_eq (h.indices.imp fun hlt => hlt.le)

theorem flatMap_putCallback (h : c.Counted) :
    c.sortedKeys.flatMap (fun key => (c.putCallback key).toList) = c.putCallbacks := by
  rw [sortedKeys_eq h, ← List.filterMap_eq_flatMap_toList]
  exact Numbered.filterMap_lookup h.indices fun index put =>
    RequestCallback.put index put.onCompleteBlock

/-- Listens come first, then the puts in order, then what waited for a connection. -/
theorem restoreState_spec (h : c.Ready) (hstate : c.connectionState = .connected)
    (hcounted : c.Counted) :
    exists c', Sent c c.restored c' ∧
      c.restoreState = some { c' with onDisconnectQueue := [] } := by
  rcases run_sendListen h c.listens with ⟨c₁, hc₁, hsent₁⟩
  have hcounted₁ := hsent₁.counted hcounted
  have hkeys : c₁.putCallbacks = c.putCallbacks := by
    rw [← flatMap_putCallback hcounted₁, ← flatMap_putCallback hcounted, sortedKeys_eq hcounted₁,
      sortedKeys_eq hcounted, keys_of_unsent hsent₁.puts]
    simp only [putCallback_of_puts hsent₁.puts]
  rcases run_sendPut hsent₁.ready (hsent₁.connectionState.trans hstate) c₁.sortedKeys with
    ⟨c₂, hc₂, hsent₂⟩
  rw [flatMap_putCallback hcounted₁, hkeys] at hsent₂
  have hqueue : c₂.onDisconnectQueue = c.onDisconnectQueue := by
    rw [hsent₂.frame, hsent₁.frame]
  rcases run_sendOnDisconnectAction hsent₂.ready c₂.onDisconnectQueue with ⟨c₃, hc₃, hsent₃⟩
  rw [hqueue] at hsent₃
  refine ⟨c₃, (hsent₁.trans hsent₂).trans hsent₃, ?_⟩
  rw [restoreState, if_pos hstate, hc₁, Option.bind_some, hc₂, Option.bind_some, hc₃]
  rfl

end FPersistentConnection

end Firebase
end MyMovies
