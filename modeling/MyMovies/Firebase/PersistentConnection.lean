import MyMovies.Foundation.Numbered
import MyMovies.Foundation.Runs

/-!
# The persistent connection

`FPersistentConnection` keeps one connection to the server at a time, opens the
next when it is lost, and repeats on it the listens and the writes that are not
answered.  Its requests are numbered; an answer finds the block of its request by
the number.  Answers to writes are held back while a listen is not answered.
Clocks, delays, statistics and the range merges of filtered queries are left out.
-/

namespace MyMovies
namespace Firebase

open Foundation

inductive ConnectionState where
  | disconnected
  | gettingToken
  | connecting
  | authenticating
  | connected
deriving DecidableEq

inductive PutAction where
  | put
  | merge
deriving DecidableEq

structure FOutstandingPut (Data Block : Type) where
  action : PutAction
  data : Data
  /-- Only a transaction sends the hash of what it read. -/
  hash : Option String
  onCompleteBlock : Block
  sent : Bool

structure FOutstandingQuery where
  query : List String
  /-- Tells this listen from a later one to the same query. -/
  serial : Nat
deriving DecidableEq

structure FTupleOnDisconnect (Data Block : Type) where
  action : String
  data : Data
  onComplete : Block

structure FTupleCallbackStatus (Block : Type) where
  block : Block
  status : String
  errorReason : Option String

/-- What a request keeps for its answer. -/
inductive RequestCallback (Block : Type) where
  | auth (restoreStateAfterComplete : Bool)
  | put (index : Nat) (onComplete : Block)
  | listen (listenSpec : FOutstandingQuery)
  | onDisconnect (callback : Block)
  | stats

inductive Request (Data : Type) where
  | auth (credential : String)
  | unauth
  | listen (query : List String)
  | unlisten (query : List String)
  | put (index : Nat) (action : PutAction) (data : Data) (hash : Option String)
  | onDisconnect (action : String) (data : Data)
  | stats

structure FConnection (Data : Type) where
  /-- The server has greeted; until then nothing can be sent. -/
  ready : Bool
  sent : List (Nat × Request Data)

/-- What the connection tells its delegate, and the blocks that it calls. -/
inductive Call (Data Block : Type) where
  | onComplete (block : Block) (status : String) (errorReason : Option String)
  | onDisconnectComplete (block : Block) (status : String) (errorReason : Option String)
  | onListenComplete (query : List String) (status : String)
  | onDataUpdate (data : Data)
  | onConnect
  | onDisconnect

structure FPersistentConnection (Data Block : Type) where
  connectionState : ConnectionState
  firstConnection : Bool
  realtime : Option (FConnection Data)
  listens : List FOutstandingQuery
  /-- Listens made so far. -/
  listenCount : Nat
  outstandingPuts : List (Nat × FOutstandingPut Data Block)
  onDisconnectQueue : List (FTupleOnDisconnect Data Block)
  putCounter : Nat
  requestNumber : Nat
  requestCBHash : List (Nat × RequestCallback Block)
  unackedListensCount : Int
  putsToAck : List (FTupleCallbackStatus Block)
  interruptReasons : List String
  /-- The retry helper has an attempt scheduled. -/
  scheduledRetry : Bool
  authToken : Option String
  currentFetchTokenAttempt : Nat
  /-- The attempts to fetch a token that the provider has not answered. -/
  fetches : List Nat

namespace FPersistentConnection

variable {Data Block : Type}

def kFWPResponseForActionStatusOk : String := "ok"

def kFErrorWriteCanceled : String := "write_canceled"

def kFTransactionDisconnect : String := "disconnect"

def kFInterruptReasonWaitingForOpen : String := "waiting_for_open"

def kFInterruptReasonServerKill : String := "server_kill"

/-- Interrupted until it is opened. -/
def init : FPersistentConnection Data Block where
  connectionState := .disconnected
  firstConnection := true
  realtime := none
  listens := []
  listenCount := 0
  outstandingPuts := []
  onDisconnectQueue := []
  putCounter := 1
  requestNumber := 1
  requestCBHash := []
  unackedListensCount := 0
  putsToAck := []
  interruptReasons := [kFInterruptReasonWaitingForOpen]
  scheduledRetry := false
  authToken := none
  currentFetchTokenAttempt := 0
  fetches := []

/-- The state after a handler and what it called; `none` is a failed assertion. -/
abbrev Outcome (Data Block : Type) : Type :=
  Option (FPersistentConnection Data Block × List (Call Data Block))

def connected (c : FPersistentConnection Data Block) : Bool :=
  c.connectionState = .authenticating || c.connectionState = .connected

def canSendWrites (c : FPersistentConnection Data Block) : Bool :=
  c.connectionState = .connected

def shouldReconnect (c : FPersistentConnection Data Block) : Bool :=
  c.interruptReasons.isEmpty

/-!
## Requests
-/

/-- `FConnection` throws before it is ready; without one the message is lost. -/
def sendRequest (c : FPersistentConnection Data Block) (rn : Nat) (request : Request Data) :
    Option (FPersistentConnection Data Block) :=
  match c.realtime with
  | none => some c
  | some realtime =>
      if realtime.ready then
        some { c with realtime := some { realtime with sent := realtime.sent ++ [(rn, request)] } }
      else none

def sendAction (c : FPersistentConnection Data Block) (request : Request Data)
    (onMessage : Option (RequestCallback Block)) : Option (FPersistentConnection Data Block) :=
  (sendRequest { c with requestNumber := c.requestNumber + 1 } c.requestNumber request).map
    fun c' =>
      match onMessage with
      | some callback =>
          { c' with requestCBHash := c'.requestCBHash ++ [(c.requestNumber, callback)] }
      | none => c'

def sendAuthAndRestoreStateAfterComplete (c : FPersistentConnection Data Block)
    (restoreStateAfterComplete : Bool) : Option (FPersistentConnection Data Block) :=
  match c.authToken with
  | none => none
  | some token =>
      if c.connected then c.sendAction (.auth token) (some (.auth restoreStateAfterComplete))
      else none

def sendUnauth (c : FPersistentConnection Data Block) :
    Option (FPersistentConnection Data Block) :=
  c.sendAction .unauth none

def sendOnDisconnectAction (c : FPersistentConnection Data Block)
    (tuple : FTupleOnDisconnect Data Block) : Option (FPersistentConnection Data Block) :=
  c.sendAction (.onDisconnect tuple.action tuple.data) (some (.onDisconnect tuple.onComplete))

def outstandingPut (c : FPersistentConnection Data Block) (index : Nat) :
    Option (FOutstandingPut Data Block) :=
  Numbered.lookup c.outstandingPuts index

def markSent (index : Nat) (entry : Nat × FOutstandingPut Data Block) :
    Nat × FOutstandingPut Data Block :=
  if entry.1 == index then (entry.1, { entry.2 with sent := true }) else entry

def sendPut (c : FPersistentConnection Data Block) (index : Nat) :
    Option (FPersistentConnection Data Block) :=
  if c.canSendWrites then
    (c.outstandingPut index).bind fun put =>
      sendAction { c with outstandingPuts := c.outstandingPuts.map (markSent index) }
        (.put index put.action put.data put.hash) (some (.put index put.onCompleteBlock))
  else none

def sendUnlisten (c : FPersistentConnection Data Block) (query : List String) :
    Option (FPersistentConnection Data Block) :=
  c.sendAction (.unlisten query) none

def sendListen (c : FPersistentConnection Data Block) (listenSpec : FOutstandingQuery) :
    Option (FPersistentConnection Data Block) :=
  (c.sendAction (.listen listenSpec.query) (some (.listen listenSpec))).map fun c' =>
    { c' with unackedListensCount := c'.unackedListensCount + 1 }

def sendConnectStats (c : FPersistentConnection Data Block) :
    Option (FPersistentConnection Data Block) :=
  c.sendAction .stats (some .stats)

/-!
## Listens and writes of the repo
-/

def outstandingQuery (c : FPersistentConnection Data Block) (query : List String) :
    Option FOutstandingQuery :=
  c.listens.find? fun listen => listen.query == query

def listen (c : FPersistentConnection Data Block) (query : List String) :
    Option (FPersistentConnection Data Block) :=
  match c.outstandingQuery query with
  | some _ => none
  | none =>
      let outstanding : FOutstandingQuery := { query := query, serial := c.listenCount }
      let c' :=
        { c with listens := c.listens ++ [outstanding], listenCount := c.listenCount + 1 }
      if c'.connected then c'.sendListen outstanding else some c'

def removeListen (c : FPersistentConnection Data Block) (query : List String) :
    FPersistentConnection Data Block :=
  { c with listens := c.listens.filter fun listen => listen.query != query }

def unlisten (c : FPersistentConnection Data Block) (query : List String) :
    Option (FPersistentConnection Data Block) :=
  let c' := c.removeListen query
  if (c.outstandingQuery query).isSome && c'.connected then c'.sendUnlisten query else some c'

def putInternal (c : FPersistentConnection Data Block) (action : PutAction) (data : Data)
    (hash : Option String) (onComplete : Block) : Option (FPersistentConnection Data Block) :=
  let put : FOutstandingPut Data Block :=
    { action := action, data := data, hash := hash, onCompleteBlock := onComplete, sent := false }
  let c' :=
    { c with
      outstandingPuts := c.outstandingPuts ++ [(c.putCounter, put)]
      putCounter := c.putCounter + 1 }
  if c'.canSendWrites then c'.sendPut c.putCounter else some c'

def putData (c : FPersistentConnection Data Block) (data : Data) (hash : Option String)
    (onComplete : Block) : Option (FPersistentConnection Data Block) :=
  c.putInternal .put data hash onComplete

def mergeData (c : FPersistentConnection Data Block) (data : Data) (onComplete : Block) :
    Option (FPersistentConnection Data Block) :=
  c.putInternal .merge data none onComplete

/-- `onDisconnectPutData:`, `onDisconnectMergeData:` and `onDisconnectCancelPath:`. -/
def onDisconnectAction (c : FPersistentConnection Data Block)
    (tuple : FTupleOnDisconnect Data Block) : Option (FPersistentConnection Data Block) :=
  if c.canSendWrites then c.sendOnDisconnectAction tuple
  else some { c with onDisconnectQueue := c.onDisconnectQueue ++ [tuple] }

def ackPuts (c : FPersistentConnection Data Block) :
    FPersistentConnection Data Block × List (Call Data Block) :=
  ({ c with putsToAck := [] },
    c.putsToAck.map fun put => .onComplete put.block put.status put.errorReason)

def sortedKeys (c : FPersistentConnection Data Block) : List Nat :=
  (c.outstandingPuts.map Prod.fst).insertionSort (· ≤ ·)

def purgeOutstandingWrites (c : FPersistentConnection Data Block) :
    FPersistentConnection Data Block × List (Call Data Block) :=
  let acked := c.ackPuts
  let cancelled := c.sortedKeys.filterMap fun key =>
    (c.outstandingPut key).map fun put => .onComplete put.onCompleteBlock kFErrorWriteCanceled none
  let onDisconnects := c.onDisconnectQueue.map fun tuple =>
    .onDisconnectComplete tuple.onComplete kFErrorWriteCanceled none
  ({ acked.1 with outstandingPuts := [], onDisconnectQueue := [] },
    acked.2 ++ cancelled ++ onDisconnects)

/-!
## Connecting
-/

def tryScheduleReconnect (c : FPersistentConnection Data Block) :
    Option (FPersistentConnection Data Block) :=
  if c.shouldReconnect then
    if c.connectionState = .disconnected then some { c with scheduledRetry := true } else none
  else some c

/-- The block of a scheduled attempt. -/
def retry (c : FPersistentConnection Data Block) : Option (FPersistentConnection Data Block) :=
  if c.scheduledRetry then
    if c.connectionState = .disconnected then
      some
        { c with
          scheduledRetry := false
          connectionState := .gettingToken
          currentFetchTokenAttempt := c.currentFetchTokenAttempt + 1
          fetches := c.fetches ++ [c.currentFetchTokenAttempt + 1] }
    else none
  else some c

inductive FetchedToken where
  | token (token : Option String)
  | error

def openNetworkConnectionWithToken (c : FPersistentConnection Data Block)
    (token : Option String) : Option (FPersistentConnection Data Block) :=
  if c.connectionState = .gettingToken then
    some
      { c with
        authToken := token
        connectionState := .connecting
        realtime := some { ready := false, sent := [] } }
  else none

/-- The provider answers an attempt; only the latest attempt counts. -/
def fetchedToken (c : FPersistentConnection Data Block) (thisFetchTokenAttempt : Nat)
    (result : FetchedToken) : Option (FPersistentConnection Data Block) :=
  if thisFetchTokenAttempt ∈ c.fetches then
    let c' := { c with fetches := c.fetches.filter (· != thisFetchTokenAttempt) }
    if thisFetchTokenAttempt = c.currentFetchTokenAttempt then
      match result with
      | .error => tryScheduleReconnect { c' with connectionState := .disconnected }
      | .token token =>
          if c'.connectionState = .gettingToken then c'.openNetworkConnectionWithToken token
          else if c'.connectionState = .disconnected then some c'
          else none
    else some c'
  else some c

def restoreState (c : FPersistentConnection Data Block) :
    Option (FPersistentConnection Data Block) :=
  if c.connectionState = .connected then
    (Runs.run sendListen c c.listens).bind fun c₁ =>
      (Runs.run (fun c' key => if (c'.outstandingPut key).isSome then c'.sendPut key else some c')
        c₁ c₁.sortedKeys).bind fun c₂ =>
      (Runs.run sendOnDisconnectAction c₂ c₂.onDisconnectQueue).map fun c₃ =>
        { c₃ with onDisconnectQueue := [] }
  else none

def restoreAuth (c : FPersistentConnection Data Block) :
    Option (FPersistentConnection Data Block) :=
  if c.connectionState = .connecting then
    if c.authToken.isNone then restoreState { c with connectionState := .connected }
    else sendAuthAndRestoreStateAfterComplete { c with connectionState := .authenticating } true
  else none

def onReady (c : FPersistentConnection Data Block) : Outcome Data Block :=
  (if c.firstConnection then c.sendConnectStats else some c).bind fun c' =>
    c'.restoreAuth.map fun c'' => ({ c'' with firstConnection := false }, [.onConnect])

/-- A greeting on a connection that is ready is ignored. -/
def onHandshake (c : FPersistentConnection Data Block) : Outcome Data Block :=
  match c.realtime with
  | some realtime =>
      if realtime.ready then some (c, [])
      else onReady { c with realtime := some { realtime with ready := true } }
  | none => some (c, [])

def isSentTransaction (entry : Nat × FOutstandingPut Data Block) : Bool :=
  entry.2.hash.isSome && entry.2.sent

def cancelSentTransactions (c : FPersistentConnection Data Block) :
    FPersistentConnection Data Block × List (Call Data Block) :=
  ({ c with outstandingPuts := c.outstandingPuts.filter fun entry => !isSentTransaction entry },
    (c.outstandingPuts.filter isSentTransaction).map fun entry =>
      .onComplete entry.2.onCompleteBlock kFTransactionDisconnect
        (some "Client was disconnected while running a transaction"))

def onDisconnect (c : FPersistentConnection Data Block) : Outcome Data Block :=
  let cancelled := cancelSentTransactions
    { c with connectionState := .disconnected, realtime := none }
  let c' := { cancelled.1 with requestCBHash := [], unackedListensCount := 0 }
  (if c'.shouldReconnect then c'.tryScheduleReconnect else some c').map fun c'' =>
    (c'', cancelled.2 ++ [.onDisconnect])

/-- `close` on the connection, which tells its delegate, unless it is closed. -/
def closeRealtime (c : FPersistentConnection Data Block) : Outcome Data Block :=
  match c.realtime with
  | some _ => c.onDisconnect
  | none => some (c, [])

def interruptForReason (c : FPersistentConnection Data Block) (reason : String) :
    Outcome Data Block :=
  let c' := { c with interruptReasons := c.interruptReasons.insert reason }
  match c'.realtime with
  | some _ => c'.closeRealtime
  | none => some ({ c' with scheduledRetry := false, connectionState := .disconnected }, [])

def resumeForReason (c : FPersistentConnection Data Block) (reason : String) :
    Option (FPersistentConnection Data Block) :=
  let c' := { c with interruptReasons := c.interruptReasons.filter (· != reason) }
  if c'.shouldReconnect && c'.connectionState = .disconnected then c'.tryScheduleReconnect
  else some c'

/-- The network can be reached again, or the application enters the foreground. -/
def networkReachable (c : FPersistentConnection Data Block) :
    Option (FPersistentConnection Data Block) :=
  if c.connectionState = .disconnected then c.tryScheduleReconnect else some c

def refreshAuthToken (c : FPersistentConnection Data Block) (token : Option String) :
    Option (FPersistentConnection Data Block) :=
  let c' := { c with authToken := token }
  if c'.connected then
    if token.isSome then c'.sendAuthAndRestoreStateAfterComplete false else c'.sendUnauth
  else some c'

/-!
## Messages of the server
-/

/-- An index is never given twice: a put found under it is the one that was sent. -/
def putAnswered (c : FPersistentConnection Data Block) (index : Nat) (onComplete : Block)
    (status : String) (errorReason : Option String) :
    FPersistentConnection Data Block × List (Call Data Block) :=
  match c.outstandingPut index with
  | none => (c, [])
  | some _ =>
      let c' := { c with outstandingPuts := Numbered.remove c.outstandingPuts index }
      if c'.unackedListensCount = 0 then (c', [.onComplete onComplete status errorReason])
      else
        ({ c' with
            putsToAck := c'.putsToAck ++
              [{ block := onComplete, status := status, errorReason := errorReason }] },
          [])

def listenAnswered (c : FPersistentConnection Data Block) (listenSpec : FOutstandingQuery)
    (status : String) : Outcome Data Block :=
  let current := c.outstandingQuery listenSpec.query == some listenSpec
  let c₁ :=
    if current && status != kFWPResponseForActionStatusOk then c.removeListen listenSpec.query
    else c
  let calls := if current then [.onListenComplete listenSpec.query status] else []
  let c₂ := { c₁ with unackedListensCount := c₁.unackedListensCount - 1 }
  if c₂.unackedListensCount < 0 then none
  else if c₂.unackedListensCount = 0 then some (c₂.ackPuts.1, calls ++ c₂.ackPuts.2)
  else some (c₂, calls)

def authAnswered (c : FPersistentConnection Data Block) (restoreStateAfterComplete : Bool)
    (status : String) : Outcome Data Block :=
  let c' := { c with connectionState := .connected }
  if status = kFWPResponseForActionStatusOk then
    if restoreStateAfterComplete then c'.restoreState.map fun c'' => (c'', [])
    else some (c', [])
  else closeRealtime { c' with authToken := none }

def callbackFor (c : FPersistentConnection Data Block) (rn : Nat) :
    Option (RequestCallback Block) :=
  Numbered.lookup c.requestCBHash rn

/-- An answer whose request is not known, as on an earlier connection, is dropped. -/
def onResponse (c : FPersistentConnection Data Block) (rn : Nat) (status : String)
    (errorReason : Option String) : Outcome Data Block :=
  match c.callbackFor rn with
  | none => some (c, [])
  | some callback =>
      let c' := { c with requestCBHash := Numbered.remove c.requestCBHash rn }
      match callback with
      | .auth restoreStateAfterComplete => c'.authAnswered restoreStateAfterComplete status
      | .put index onComplete => some (c'.putAnswered index onComplete status errorReason)
      | .listen listenSpec => c'.listenAnswered listenSpec status
      | .onDisconnect block => some (c', [.onDisconnectComplete block status errorReason])
      | .stats => some (c', [])

inductive DataPush (Data : Type) where
  | dataUpdate (data : Data)
  | authRevoked
  | listenRevoked (query : List String)
  /-- Security messages and actions that are not supported. -/
  | other

def onDataPushWithAction (c : FPersistentConnection Data Block) :
    DataPush Data -> Outcome Data Block
  | .dataUpdate data => some (c, [.onDataUpdate data])
  | .authRevoked => closeRealtime { c with authToken := none }
  | .listenRevoked query =>
      some (c.removeListen query,
        (c.listens.filter fun listen => listen.query == query).map fun listen =>
          .onListenComplete listen.query "permission_denied")
  | .other => some (c, [])

/-!
## Events
-/

inductive Event (Data Block : Type) where
  | listen (query : List String)
  | unlisten (query : List String)
  | putData (data : Data) (hash : Option String) (onComplete : Block)
  | mergeData (data : Data) (onComplete : Block)
  | onDisconnectAction (tuple : FTupleOnDisconnect Data Block)
  | purgeOutstandingWrites
  | refreshAuthToken (token : Option String)
  | interruptForReason (reason : String)
  | resumeForReason (reason : String)
  | networkReachable
  | retry
  | fetchedToken (attempt : Nat) (result : FetchedToken)
  | onHandshake
  /-- The connection is lost, or the server resets it. -/
  | closeRealtime
  /-- The server shuts the connection down. -/
  | onKill
  | onResponse (rn : Nat) (status : String) (errorReason : Option String)
  /-- A message with an error, which is thrown. -/
  | onRequestError
  | onDataPush (push : DataPush Data)

def quietly (c : Option (FPersistentConnection Data Block)) : Outcome Data Block :=
  c.map fun c' => (c', [])

def step (c : FPersistentConnection Data Block) : Event Data Block -> Outcome Data Block
  | .listen query => quietly (c.listen query)
  | .unlisten query => quietly (c.unlisten query)
  | .putData data hash onComplete => quietly (c.putData data hash onComplete)
  | .mergeData data onComplete => quietly (c.mergeData data onComplete)
  | .onDisconnectAction tuple => quietly (c.onDisconnectAction tuple)
  | .purgeOutstandingWrites => some c.purgeOutstandingWrites
  | .refreshAuthToken token => quietly (c.refreshAuthToken token)
  | .interruptForReason reason => c.interruptForReason reason
  | .resumeForReason reason => quietly (c.resumeForReason reason)
  | .networkReachable => quietly c.networkReachable
  | .retry => quietly c.retry
  | .fetchedToken attempt result => quietly (c.fetchedToken attempt result)
  | .onHandshake => c.onHandshake
  | .closeRealtime => c.closeRealtime
  | .onKill => c.interruptForReason kFInterruptReasonServerKill
  | .onResponse rn status errorReason => c.onResponse rn status errorReason
  | .onRequestError => none
  | .onDataPush push => c.onDataPushWithAction push

end FPersistentConnection

end Firebase
end MyMovies
