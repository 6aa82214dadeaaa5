import MyMovies.Firebase.Reconnecting

/-!
# Puts in order

On each connection the puts that are not answered go out again, oldest first, and
the later ones after them; so their answers come in order when the server answers
in order.  The blocks are called in that order too, unless answers that are held
back are overtaken: on a new connection without listens nothing releases them.
-/

namespace MyMovies
namespace Firebase

open Foundation

namespace RequestCallback

variable {Block : Type}

/-- For an authentication, whether it restores the state. -/
def restores : RequestCallback Block -> Option Bool
  | .auth restoreStateAfterComplete => some restoreStateAfterComplete
  | _ => none

def sameKind : RequestCallback Block -> RequestCallback Block -> Bool
  | .auth _, .auth _ => true
  | .put _ _, .put _ _ => true
  | _, _ => false

end RequestCallback

namespace FPersistentConnection

variable {Data Block : Type} {c c' : FPersistentConnection Data Block}

def putsWaiting (c : FPersistentConnection Data Block) : List Nat :=
  c.waiting.filterMap RequestCallback.putIndex

def auths (c : FPersistentConnection Data Block) : List Bool :=
  c.waiting.filterMap RequestCallback.restores

/-- The server answers puts in the order in which they were sent, and so authentications. -/
def InOrder (c : FPersistentConnection Data Block) : Event Data Block -> Prop
  | .onResponse rn _ _ =>
      forall earlier, earlier ∈ c.requestCBHash -> earlier.1 < rn ->
        (c.callbackFor rn).any earlier.2.sameKind = false
  | _ => True

theorem inOrder_iff (c : FPersistentConnection Data Block) (e : Event Data Block) :
    (forall rn, rn ∈ e.answers -> forall earlier, earlier ∈ c.requestCBHash -> earlier.1 < rn ->
      (c.callbackFor rn).any earlier.2.sameKind = false) <-> c.InOrder e := by
  cases e <;> simp [InOrder, Event.answers]

instance InOrder.decidable (c : FPersistentConnection Data Block) (e : Event Data Block) :
    Decidable (c.InOrder e) :=
  decidable_of_iff _ (inOrder_iff c e)

/-!
## Restoring
-/

/-- A new connection authenticates first, if at all; then all outstanding puts are sent on it. -/
inductive Stage (c : FPersistentConnection Data Block) : Prop where
  | offline (hoffline : c.connected = false)
  | pending (rest : List Bool) (hstate : c.connectionState = .authenticating)
      (hauths : c.auths = true :: rest) (hrest : true ∉ rest) (hwaiting : c.putsWaiting = [])
      (hsent : c.putsSent = [])
  | done (hstate : c.connectionState = .connected) (hauths : true ∉ c.auths)
      (hkeys : c.keys <:+ c.putsWaiting) (hwaiting : c.putsWaiting <:+ c.putsSent)

structure Restored (c : FPersistentConnection Data Block) : Prop where
  increasing : c.putsSent.Pairwise (· < ·)
  below : forall index, index ∈ c.putsSent -> index < c.putCounter
  stage : c.Stage

theorem Inv.putsSent_offline (h : c.Inv) (hoffline : c.connected = false) : c.putsSent = [] := by
  cases h.phase with
  | disconnected _ hrealtime => rw [putsSent, hrealtime]
  | gettingToken _ hrealtime => rw [putsSent, hrealtime]
  | connecting _ hrealtime =>
      rw [putsSent, hrealtime]
      rfl
  | online hconnected =>
      rw [hoffline] at hconnected
      cases hconnected

theorem Restored.of_offline (h : c.Inv) (hoffline : c.connected = false) : c.Restored := by
  have hnil := h.putsSent_offline hoffline
  constructor
  case increasing =>
    rw [hnil]
    exact List.Pairwise.nil
  case below =>
    rw [hnil]
    exact fun _ hindex => absurd hindex List.not_mem_nil
  case stage => exact .offline hoffline

theorem Inv.keys_increasing (h : c.Inv) : c.keys.Pairwise (· < ·) := h.counted.indices

theorem Inv.keys_below (h : c.Inv) : forall index, index ∈ c.keys -> index < c.putCounter :=
  h.counted.indexed

theorem waiting_in_order (h : c.Inv) {e : Event Data Block} (horder : c.InOrder e) {rn : Nat}
    (hanswers : e.answers = some rn) {callback : RequestCallback Block}
    (hcallback : c.callbackFor rn = some callback) :
    exists front back, c.waiting = front ++ callback :: back ∧
      (c.taken rn).waiting = front ++ back ∧
      forall earlier, earlier ∈ front -> earlier.sameKind callback = false := by
  rcases Numbered.split_of_lookup h.counted.increasing hcallback with
    ⟨front, back, hhash, hremoved⟩
  refine ⟨front.map Prod.snd, back.map Prod.snd, ?_, ?_, ?_⟩
  · rw [waiting, hhash, List.map_append, List.map_cons]
  · rw [waiting, taken, hremoved, List.map_append]
  · intro earlier hearlier
    rcases List.mem_map.mp hearlier with ⟨entry, hentry, rfl⟩
    have hlt : entry.1 < rn := by
      have hincreasing := h.counted.increasing
      rw [Numbered.Increasing, hhash, List.map_append, List.pairwise_append] at hincreasing
      exact hincreasing.right.right entry.1 (List.mem_map_of_mem hentry) rn (by simp)
    cases e with
    | onResponse number status errorReason =>
        cases hanswers
        have hfirst := horder entry (by rw [hhash]; exact List.mem_append_left _ hentry) hlt
        rw [hcallback] at hfirst
        exact hfirst
    | _ => cases hanswers

theorem filterMap_in_order {α : Type} {f : RequestCallback Block -> Option α}
    {callback : RequestCallback Block}
    (hkind : forall earlier, (f earlier).isSome = true -> earlier.sameKind callback = true)
    {front : List (RequestCallback Block)}
    (hfront : forall earlier, earlier ∈ front -> earlier.sameKind callback = false) :
    front.filterMap f = [] := by
  apply List.filterMap_eq_nil_iff.mpr
  intro earlier hearlier
  cases hf : f earlier with
  | none => rfl
  | some a =>
      have hsame := hkind earlier (by rw [hf]; rfl)
      rw [hfront earlier hearlier] at hsame
      cases hsame

theorem putsWaiting_in_order (h : c.Inv) {e : Event Data Block} (horder : c.InOrder e) {rn : Nat}
    (hanswers : e.answers = some rn) {index : Nat} {block : Block}
    (hcallback : c.callbackFor rn = some (.put index block)) :
    c.putsWaiting = index :: (c.taken rn).putsWaiting := by
  rcases waiting_in_order h horder hanswers hcallback with ⟨front, back, hwaiting, htaken, hfront⟩
  have hnone : front.filterMap RequestCallback.putIndex = [] := by
    apply filterMap_in_order _ hfront
    intro earlier hput
    cases earlier with
    | put _ _ => rfl
    | _ => cases hput
  rw [putsWaiting, putsWaiting, hwaiting, htaken, List.filterMap_append, List.filterMap_append,
    hnone]
  rfl

theorem auths_in_order (h : c.Inv) {e : Event Data Block} (horder : c.InOrder e) {rn : Nat}
    (hanswers : e.answers = some rn) {restore : Bool}
    (hcallback : c.callbackFor rn = some (.auth restore)) :
    c.auths = restore :: (c.taken rn).auths := by
  rcases waiting_in_order h horder hanswers hcallback with ⟨front, back, hwaiting, htaken, hfront⟩
  have hnone : front.filterMap RequestCallback.restores = [] := by
    apply filterMap_in_order _ hfront
    intro earlier hauth
    cases earlier with
    | auth _ => rfl
    | _ => cases hauth
  rw [auths, auths, hwaiting, htaken, List.filterMap_append, List.filterMap_append, hnone]
  rfl

theorem filterMap_taken (h : c.Inv) {rn : Nat} {callback : RequestCallback Block}
    (hcallback : c.callbackFor rn = some callback) {α : Type}
    {f : RequestCallback Block -> Option α} (hf : f callback = none) :
    (c.taken rn).waiting.filterMap f = c.waiting.filterMap f := by
  rcases waiting_taken h hcallback with ⟨front, back, hwaiting, htaken⟩
  rw [hwaiting, htaken, List.filterMap_append, List.filterMap_append,
    List.filterMap_cons_none hf]

theorem auths_restored (c : FPersistentConnection Data Block) :
    c.restored.filterMap RequestCallback.restores = [] := by
  apply List.filterMap_eq_nil_iff.mpr
  intro callback hcallback
  simp only [FPersistentConnection.restored, putCallbacks, List.mem_append, List.mem_map]
    at hcallback
  rcases hcallback with (⟨_, _, rfl⟩ | ⟨_, _, rfl⟩) | ⟨_, _, rfl⟩ <;> rfl

theorem not_restores {added : List (RequestCallback Block)} (h : .auth true ∉ added) :
    true ∉ added.filterMap RequestCallback.restores := by
  intro hmem
  rcases List.mem_filterMap.mp hmem with ⟨callback, hcallback, hrestores⟩
  cases callback with
  | auth restore =>
      cases hrestores
      exact h hcallback
  | _ => cases hrestores

theorem keys_answered {index : Nat} {keys rest : List Nat} (hkeys : keys <:+ index :: rest)
    (hincreasing : (index :: rest).Pairwise (· < ·)) :
    keys.filter (fun key => some index != some key) <:+ rest := by
  have hrest : (index :: rest).filter (fun key => some index != some key) = rest := by
    rw [List.filter_cons_of_neg (by simp)]
    apply List.filter_eq_self.mpr
    intro key hkey
    have hlt := (List.pairwise_cons.mp hincreasing).left key hkey
    simpa using hlt.ne
  have hsuffix := hkeys.filter fun key => some index != some key
  rw [hrest] at hsuffix
  exact hsuffix

theorem putsWaiting_answered (h : c.Inv) {e : Event Data Block} (horder : c.InOrder e) {rn : Nat}
    (hanswers : e.answers = some rn) {callback : RequestCallback Block}
    (hcallback : c.callbackFor rn = some callback)
    (hincreasing : c.putsWaiting.Pairwise (· < ·)) (hkeys : c.keys <:+ c.putsWaiting) :
    c.keys.filter (fun key => callback.putIndex != some key) <:+ (c.taken rn).putsWaiting ∧
      (c.taken rn).putsWaiting <:+ c.putsWaiting := by
  cases hindex : callback.putIndex with
  | none =>
      have hsame : (c.taken rn).putsWaiting = c.putsWaiting := filterMap_taken h hcallback hindex
      have hall : c.keys.filter (fun key => none != some key) = c.keys :=
        List.filter_eq_self.mpr fun _ _ => rfl
      rw [hsame, hall]
      exact ⟨hkeys, List.suffix_refl _⟩
  | some index =>
      cases callback with
      | put index' block =>
          cases hindex
          rw [putsWaiting_in_order h horder hanswers hcallback] at hkeys hincreasing ⊢
          exact ⟨keys_answered hkeys hincreasing, List.suffix_cons _ _⟩
      | _ => cases hindex

theorem Restored.of_sent (h : c.Restored) {added : List (RequestCallback Block)}
    (hauth : .auth true ∉ added) (hstate : c'.connectionState = c.connectionState)
    (hwaiting : c'.waiting = c.waiting ++ added) {puts : List Nat}
    (hputs : added.filterMap RequestCallback.putIndex = puts)
    (hsent : c'.putsSent = c.putsSent ++ puts)
    (hincreasing : c'.putsSent.Pairwise (· < ·))
    (hbelow : forall index, index ∈ c'.putsSent -> index < c'.putCounter)
    (hpending : c.connectionState = .authenticating -> puts = [])
    (hkeys : c.connectionState = .connected -> c.keys <:+ c.putsWaiting ->
      c'.keys <:+ c.putsWaiting ++ puts) : c'.Restored := by
  have hauths : c'.auths = c.auths ++ added.filterMap RequestCallback.restores := by
    rw [auths, hwaiting, List.filterMap_append]
    rfl
  have hputsWaiting : c'.putsWaiting = c.putsWaiting ++ puts := by
    rw [putsWaiting, hwaiting, List.filterMap_append, hputs]
    rfl
  have hnone := not_restores hauth
  refine ⟨hincreasing, hbelow, ?_⟩
  cases h.stage with
  | offline hoffline =>
      apply Stage.offline
      rw [connected, hstate]
      exact hoffline
  | pending rest hauthenticating hfirst hrest hnil hsentNil =>
      apply Stage.pending (rest ++ added.filterMap RequestCallback.restores)
        (hstate.trans hauthenticating)
      · rw [hauths, hfirst]
        rfl
      · intro hmem
        exact (List.mem_append.mp hmem).elim hrest hnone
      · rw [hputsWaiting, hnil, hpending hauthenticating]
        rfl
      · rw [hsent, hsentNil, hpending hauthenticating]
        rfl
  | done hconnected hauths' hsuffix hsuffix' =>
      apply Stage.done (hstate.trans hconnected)
      · rw [hauths]
        intro hmem
        exact (List.mem_append.mp hmem).elim hauths' hnone
      · rw [hputsWaiting]
        exact hkeys hconnected hsuffix
      · rw [hputsWaiting, hsent]
        exact List.suffix_append_self_iff.mpr hsuffix'

theorem Restored.of_restored (h : c.Inv) (hstate : c'.connectionState = .connected)
    (hkeys : c'.keys = c.keys) (hcounter : c'.putCounter = c.putCounter)
    (hsent : c'.putsSent = c.keys) {front : List (RequestCallback Block)}
    (hwaiting : c'.waiting = front ++ c.restored)
    (hputs : front.filterMap RequestCallback.putIndex = [])
    (hauths : true ∉ front.filterMap RequestCallback.restores) : c'.Restored := by
  have hputsWaiting : c'.putsWaiting = c.keys := by
    rw [putsWaiting, hwaiting, List.filterMap_append, hputs, putIndex_restored, List.nil_append]
  constructor
  case increasing =>
    rw [hsent]
    exact h.keys_increasing
  case below =>
    rw [hsent, hcounter]
    exact h.keys_below
  case stage =>
    apply Stage.done hstate
    · rw [auths, hwaiting, List.filterMap_append, auths_restored, List.append_nil]
      exact hauths
    · have hsame : c'.keys = c'.putsWaiting := hkeys.trans hputsWaiting.symm
      exact hsame ▸ List.suffix_refl c'.keys
    · have hsame : c'.putsWaiting = c'.putsSent := hputsWaiting.trans hsent.symm
      exact hsame ▸ List.suffix_refl c'.putsWaiting

theorem Restored.putsSent_issued (h : c.Restored) :
    (c.putsSent ++ if c.canSendWrites then [c.putCounter] else []).Pairwise (· < ·) ∧
      forall index, index ∈ (c.putsSent ++ if c.canSendWrites then [c.putCounter] else []) ->
        index < c.putCounter + 1 := by
  cases c.canSendWrites with
  | false =>
      rw [if_neg (by decide), List.append_nil]
      exact ⟨h.increasing, fun index hindex => (h.below index hindex).trans (Nat.lt_succ_self _)⟩
  | true =>
      rw [if_pos rfl]
      constructor
      · apply List.pairwise_append.mpr
        refine ⟨h.increasing, List.pairwise_singleton _ _, ?_⟩
        intro index hindex key hkey
        rw [List.mem_singleton.mp hkey]
        exact h.below index hindex
      · intro index hindex
        rcases List.mem_append.mp hindex with hindex | hindex
        · exact (h.below index hindex).trans (Nat.lt_succ_self _)
        · rw [List.mem_singleton.mp hindex]
          exact Nat.lt_succ_self _

theorem Restored.answered (h : c.Restored) (hinv : c.Inv) {e : Event Data Block}
    (horder : c.InOrder e) {rn : Nat} {callback : RequestCallback Block}
    (hcallback : c.callbackFor rn = some callback) (hanswers : e.answers = some rn)
    (hother : forall restore, callback ≠ .auth restore)
    (hstate : c'.connectionState = c.connectionState) (hwaiting : c'.waiting = (c.taken rn).waiting)
    (hsent : c'.putsSent = c.putsSent)
    (hkeys : c'.keys = c.keys.filter fun index => callback.putIndex != some index) : c'.Stage := by
  have hnone : callback.restores = none := by
    cases callback with
    | auth restore => exact absurd rfl (hother restore)
    | _ => rfl
  have hauths : c'.auths = c.auths := by
    rw [auths, hwaiting]
    exact filterMap_taken hinv hcallback hnone
  have hputsWaiting : c'.putsWaiting = (c.taken rn).putsWaiting := by
    rw [putsWaiting, hwaiting]
    rfl
  cases h.stage with
  | offline hoffline =>
      rw [hinv.online_of_callback hcallback] at hoffline
      cases hoffline
  | pending rest hauthenticating hfirst hrest hnil hsentNil =>
      apply Stage.pending rest (hstate.trans hauthenticating) (hauths.trans hfirst) hrest
      · have hsub : (c.taken rn).putsWaiting.Sublist c.putsWaiting :=
          ((Numbered.remove_sublist _ _).map _).filterMap _
        rw [hnil] at hsub
        rw [hputsWaiting]
        exact List.sublist_nil.mp hsub
      · rw [hsent]
        exact hsentNil
  | done hconnected hauths' hsuffix hsuffix' =>
      have hanswered := putsWaiting_answered hinv horder hanswers hcallback
        (h.increasing.sublist hsuffix'.sublist) hsuffix
      apply Stage.done (hstate.trans hconnected)
      · rw [hauths]
        exact hauths'
      · rw [hkeys, hputsWaiting]
        exact hanswered.left
      · rw [hputsWaiting, hsent]
        exact hanswered.right.trans hsuffix'

theorem Restored.authenticated (h : c.Restored) (hinv : c.Inv) {e : Event Data Block}
    (horder : c.InOrder e) {rn : Nat} (hcallback : c.callbackFor rn = some (.auth true))
    (hanswers : e.answers = some rn) (hstate : c'.connectionState = .connected)
    (hwaiting : c'.waiting = (c.taken rn).waiting ++ c.restored)
    (hsent : c'.putsSent = c.putsSent ++ c.keys) (hkeys : c'.keys = c.keys)
    (hcounter : c'.putCounter = c.putCounter) : c'.Restored := by
  have hfirst := auths_in_order hinv horder hanswers hcallback
  have hputs : (c.taken rn).putsWaiting = c.putsWaiting := filterMap_taken hinv hcallback rfl
  cases h.stage with
  | offline hoffline =>
      rw [hinv.online_of_callback hcallback] at hoffline
      cases hoffline
  | pending rest _ hauths hrest hnil hsentNil =>
      rw [hauths] at hfirst
      rcases List.cons.inj hfirst with ⟨_, hrest'⟩
      rw [hsentNil] at hsent
      rw [hnil] at hputs
      rw [hrest'] at hrest
      exact Restored.of_restored hinv hstate hkeys hcounter hsent hwaiting hputs hrest
  | done _ hauths =>
      rw [hfirst] at hauths
      exact absurd List.mem_cons_self hauths

theorem Restored.reauthenticated (h : c.Restored) (hinv : c.Inv) {e : Event Data Block}
    (horder : c.InOrder e) {rn : Nat} (hcallback : c.callbackFor rn = some (.auth false))
    (hanswers : e.answers = some rn) (hstate : c'.connectionState = .connected)
    (hwaiting : c'.waiting = (c.taken rn).waiting) (hsent : c'.putsSent = c.putsSent)
    (hkeys : c'.keys = c.keys) : c'.Stage := by
  have hfirst := auths_in_order hinv horder hanswers hcallback
  have hputsWaiting : c'.putsWaiting = c.putsWaiting := by
    rw [putsWaiting, hwaiting]
    exact filterMap_taken hinv hcallback rfl
  cases h.stage with
  | offline hoffline =>
      rw [hinv.online_of_callback hcallback] at hoffline
      cases hoffline
  | pending rest _ hauths =>
      rw [hauths] at hfirst
      cases hfirst
  | done _ hauths hsuffix hsuffix' =>
      rw [hfirst] at hauths
      apply Stage.done hstate
      · rw [FPersistentConnection.auths, hwaiting]
        exact fun hmem => hauths (List.mem_cons_of_mem _ hmem)
      · rw [hkeys, hputsWaiting]
        exact hsuffix
      · rw [hsent, hputsWaiting]
        exact hsuffix'

/-- The step lemma: every event keeps the order. -/
theorem Restored.moves (h : c.Restored) (hinv : c.Inv) (hinv' : c'.Inv) {e : Event Data Block}
    (hmoves : Moves c e c') (horder : c.InOrder e) : c'.Restored := by
  have hkept : c'.putsSent = c.putsSent -> c'.putCounter = c.putCounter -> c'.Stage ->
      c'.Restored := by
    intro hsent hcounter hstage
    refine ⟨?_, ?_, hstage⟩
    · rw [hsent]
      exact h.increasing
    · rw [hsent, hcounter]
      exact h.below
  cases hmoves with
  | offline hoffline => exact Restored.of_offline hinv' hoffline
  | requests added hstate hwaiting hputs hauth hsent hkeys hcounter =>
      apply h.of_sent hauth hstate hwaiting hputs
      · rw [hsent, List.append_nil]
      · rw [hsent]
        exact h.increasing
      · rw [hsent, hcounter]
        exact h.below
      · exact fun _ => rfl
      · intro _ hsuffix
        rw [List.append_nil]
        exact hkeys.trans hsuffix
  | issues added hstate hwaiting hputs hauth hsent hkeys hcounter =>
      rw [hputs] at hsent
      apply h.of_sent hauth hstate hwaiting hputs hsent
      · rw [hsent]
        exact h.putsSent_issued.left
      · rw [hsent, hcounter]
        exact h.putsSent_issued.right
      · intro hauthenticating
        rw [canSendWrites, hauthenticating]
        rfl
      · intro hconnected hsuffix
        rw [hkeys, canSendWrites, hconnected]
        exact List.suffix_append_self_iff.mpr hsuffix
  | answered rn callback hcallback hanswers hother hstate hwaiting hsent hkeys hcounter =>
      exact hkept hsent hcounter
        (h.answered hinv horder hcallback hanswers hother hstate hwaiting hsent hkeys)
  | authenticated rn restore hcallback hanswers hstate hwaiting hsent hkeys hcounter =>
      cases restore with
      | true =>
          exact h.authenticated hinv horder hcallback hanswers hstate hwaiting hsent hkeys hcounter
      | false =>
          rw [if_neg (by decide), List.append_nil] at hwaiting hsent
          exact hkept hsent hcounter
            (h.reauthenticated hinv horder hcallback hanswers hstate hwaiting hsent hkeys)
  | greeted stats hstats hstate hwaiting hsent hkeys hcounter =>
      apply Restored.of_restored hinv hstate hkeys hcounter hsent hwaiting
      · rcases hstats with rfl | rfl <;> rfl
      · rcases hstats with rfl | rfl <;> simp [RequestCallback.restores]
  | challenged stats hstats hstate hwaiting hsent hkeys hcounter =>
      have hputs : c'.putsWaiting = [] := by
        rw [putsWaiting, hwaiting]
        rcases hstats with rfl | rfl <;> rfl
      have hauths : c'.auths = [true] := by
        rw [auths, hwaiting]
        rcases hstats with rfl | rfl <;> rfl
      refine ⟨by rw [hsent]; exact List.Pairwise.nil, by rw [hsent]; simp, ?_⟩
      exact .pending [] hstate hauths List.not_mem_nil hputs hsent

/-!
## The queue of the puts
-/

def Hashless (c : FPersistentConnection Data Block) : Prop :=
  forall entry, entry ∈ c.outstandingPuts -> entry.2.hash = none

theorem Settles.puts_subset {e : Event Data Block}
    {r : FPersistentConnection Data Block × List (Call Data Block)} (h : Settles c e r) :
    r.1.puts ⊆ c.putsAfter e := by
  have hless : forall {puts : List (Nat × FOutstandingPut Data Block)},
      puts ⊆ c.outstandingPuts -> puts.map unsent ⊆ c.putsAfter e := by
    intro puts hsub entry hentry
    exact List.mem_append_left _ (List.map_subset _ hsub hentry)
  cases h with
  | kept _ _ hputs =>
      rw [hputs]
      exact List.Subset.refl _
  | answered _ _ _ _ _ _ _ _ hanswered =>
      rcases hanswered.puts with ⟨front, back, hputs, hputs'⟩
      apply hless
      rw [hputs, hputs']
      intro entry hentry
      rcases List.mem_append.mp hentry with hentry | hentry
      · exact List.mem_append_left _ hentry
      · exact List.mem_append_right _ (List.mem_cons_of_mem _ hentry)
  | acked _ _ _ hout =>
      apply hless
      rw [hout]
      exact List.Subset.refl _
  | dropped _ _ _ hout =>
      apply hless
      rw [hout]
      exact List.filter_subset_self _
  | purged _ _ _ hout =>
      apply hless
      rw [hout]
      exact List.nil_subset _

theorem Hashless.after (h : c.Hashless) {e : Event Data Block}
    (hplain : forall put, e.put = some put -> put.hash = none)
    {r : FPersistentConnection Data Block × List (Call Data Block)} (hsettles : Settles c e r) :
    r.1.Hashless := by
  intro entry hentry
  have hmem := hsettles.puts_subset (List.mem_map_of_mem hentry)
  rcases List.mem_append.mp hmem with hmem | hmem
  · rcases List.mem_map.mp hmem with ⟨earlier, hearlier, heq⟩
    have hhash := congrArg (fun entry => FOutstandingPut.hash entry.2) heq
    exact hhash.symm.trans (h earlier hearlier)
  · rcases List.mem_map.mp hmem with ⟨put, hput, heq⟩
    have hhash := congrArg (fun entry => FOutstandingPut.hash entry.2) heq
    exact hhash.symm.trans (hplain put (Option.mem_toList.mp hput))

theorem first_answered (h : c.Inv) (hrestored : c.Restored)
    {e : Event Data Block} (horder : c.InOrder e) {rn : Nat} (hanswers : e.answers = some rn)
    {index : Nat} {block : Block} (hcallback : c.callbackFor rn = some (.put index block))
    {front back : List (Nat × FOutstandingPut Data Block)} {put : FOutstandingPut Data Block}
    (hputs : c.outstandingPuts = front ++ (index, put) :: back) : front = [] := by
  have hwaiting := putsWaiting_in_order h horder hanswers hcallback
  cases hrestored.stage with
  | offline hoffline =>
      rw [h.online_of_callback hcallback] at hoffline
      cases hoffline
  | pending _ _ _ _ hnil =>
      rw [hnil] at hwaiting
      cases hwaiting
  | done _ _ hkeys hsuffix =>
      have hincreasing := hrestored.increasing.sublist hsuffix.sublist
      rw [hwaiting] at hincreasing hkeys
      rcases hkeys with ⟨earlier, hearlier⟩
      rw [keys, hputs, List.map_append, List.map_cons, ← List.append_assoc] at hearlier
      cases hfront : earlier ++ front.map Prod.fst with
      | nil => exact List.map_eq_nil_iff.mp (List.append_eq_nil_iff.mp hfront).right
      | cons first rest =>
          rw [hfront] at hearlier
          rcases List.cons.inj hearlier with ⟨_, hrest⟩
          have hlt := (List.pairwise_cons.mp hincreasing).left index (by rw [← hrest]; simp)
          exact absurd hlt (lt_irrefl index)

/-- The blocks that are to be called, the oldest first. -/
def queue (c : FPersistentConnection Data Block) : List Block := c.held ++ c.outstanding

def Unanswered (c : FPersistentConnection Data Block) (e : Event Data Block) : Prop :=
  forall rn index put, e.answers = some rn ->
    c.callbackFor rn = some (.put index put.onCompleteBlock) -> c.outstandingPut index ≠ some put

theorem queue_unanswered (h : c.Hashless) {e : Event Data Block}
    {r : FPersistentConnection Data Block × List (Call Data Block)} (hsettles : Settles c e r)
    (hother : c.Unanswered e) : completed r.2 ++ r.1.queue = c.queue ++ e.issued := by
  cases hsettles with
  | kept hcalls hheld hputs =>
      rw [hcalls, queue, hheld, outstanding_eq r.1, hputs, putsAfter, List.map_append,
        ← outstanding_eq, List.map_map, List.nil_append, ← List.append_assoc]
      rfl
  | answered rn status errorReason index put he hcallback hput _ =>
      exact absurd hput (hother rn index put (by rw [he]; rfl) hcallback)
  | acked hissued hcalls hheld hout =>
      rw [hissued, hcalls, queue, queue, hheld, outstanding, outstanding, hout, List.append_nil,
        List.nil_append]
  | dropped hissued hcalls hheld hout =>
      have hplain : forall entry, entry ∈ c.outstandingPuts -> isSentTransaction entry = false := by
        intro entry hentry
        rw [isSentTransaction, h entry hentry]
        rfl
      have hnone : c.outstandingPuts.filter isSentTransaction = [] :=
        List.filter_eq_nil_iff.mpr fun entry hentry => by simp [hplain entry hentry]
      have hall : c.outstandingPuts.filter (fun entry => !isSentTransaction entry) =
          c.outstandingPuts :=
        List.filter_eq_self.mpr fun entry hentry => by simp [hplain entry hentry]
      rw [hall] at hout
      rw [hissued, hcalls, queue, queue, hheld, hnone, outstanding, outstanding, hout,
        List.map_nil, List.append_nil, List.nil_append]
  | purged hissued hcalls hheld hout =>
      rw [hissued, hcalls, queue, queue, hheld, outstanding, outstanding, hout]
      simp

/-- No put is answered at once while answers before it are held back. -/
def NotOvertaken (c : FPersistentConnection Data Block) : Event Data Block -> Prop
  | .onResponse rn _ _ =>
      forall index,
        index ∈ (c.callbackFor rn).bind RequestCallback.putIndex ->
        (c.outstandingPut index).isSome = true ->
        c.unackedListensCount = 0 -> c.putsToAck.isEmpty = true
  | _ => True

theorem notOvertaken_iff (c : FPersistentConnection Data Block) (e : Event Data Block) :
    (forall index, index ∈ (e.answers.bind c.callbackFor).bind RequestCallback.putIndex ->
      (c.outstandingPut index).isSome = true ->
      c.unackedListensCount = 0 -> c.putsToAck.isEmpty = true) <-> c.NotOvertaken e := by
  cases e <;> simp [NotOvertaken, Event.answers]

instance NotOvertaken.decidable (c : FPersistentConnection Data Block) (e : Event Data Block) :
    Decidable (c.NotOvertaken e) :=
  decidable_of_iff _ (notOvertaken_iff c e)

theorem queue_answered {index : Nat} {put : FOutstandingPut Data Block}
    {r : FPersistentConnection Data Block × List (Call Data Block)}
    (hanswered : Answered c index put r)
    (hout : c.outstanding = put.onCompleteBlock :: r.1.outstanding)
    (hreleased : c.unackedListensCount = 0 -> c.putsToAck.isEmpty = true) :
    completed r.2 ++ r.1.queue = c.queue := by
  rcases hanswered.calls with ⟨hzero, hcalls, hheld⟩ | ⟨_, hcalls, hheld⟩
  · have hnil : c.held = [] := by
      rw [held, List.isEmpty_iff.mp (hreleased hzero)]
      rfl
    rw [hcalls, queue, queue, hheld, hnil, hout]
    rfl
  · rw [hcalls, queue, queue, hheld, hout, List.append_assoc]
    rfl

theorem response_answered (h : c.Inv) (hrestored : c.Restored) {rn index : Nat}
    {put : FOutstandingPut Data Block} {status : String} {errorReason : Option String}
    (horder : c.InOrder (.onResponse rn status errorReason))
    (hcallback : c.callbackFor rn = some (.put index put.onCompleteBlock))
    (hput : c.outstandingPut index = some put) :
    exists r, c.step (.onResponse rn status errorReason) = some r ∧ Answered c index put r ∧
      c.outstanding = put.onCompleteBlock :: r.1.outstanding ∧
      (c.NotOvertaken (.onResponse rn status errorReason) <->
        (c.unackedListensCount = 0 -> c.putsToAck.isEmpty = true)) := by
  have hanswered := putAnswered_answered h rn hput status errorReason
  rcases hanswered.puts with ⟨front, back, hputs, hputs'⟩
  cases first_answered h hrestored horder rfl hcallback hputs
  refine ⟨_, ?_, hanswered, ?_, ?_⟩
  · rw [step, onResponse, hcallback]
    rfl
  · rw [outstanding, outstanding, hputs, hputs']
    rfl
  · simp [NotOvertaken, hcallback, hput, RequestCallback.putIndex]

theorem answers_cases (h : c.Inv) (e : Event Data Block) :
    (exists rn status errorReason index put, e = .onResponse rn status errorReason ∧
      c.callbackFor rn = some (.put index put.onCompleteBlock) ∧
      c.outstandingPut index = some put) ∨
    (c.Unanswered e ∧ c.NotOvertaken e) := by
  by_cases hfound : exists rn index put, e.answers = some rn ∧
    c.callbackFor rn = some (.put index put.onCompleteBlock) ∧ c.outstandingPut index = some put
  · left
    rcases hfound with ⟨rn, index, put, hanswers, hcallback, hput⟩
    cases e with
    | onResponse number status errorReason =>
        cases hanswers
        exact ⟨rn, status, errorReason, index, put, rfl, hcallback, hput⟩
    | _ => cases hanswers
  · right
    have hother : c.Unanswered e := fun rn index put hanswers hcallback hput =>
      hfound ⟨rn, index, put, hanswers, hcallback, hput⟩
    refine ⟨hother, ?_⟩
    cases e with
    | onResponse rn status errorReason =>
        intro index hindex hsome
        exfalso
        rcases Option.isSome_iff_exists.mp hsome with ⟨put, hput⟩
        rcases Option.bind_eq_some_iff.mp hindex with ⟨callback, hcallback, hputIndex⟩
        cases callback with
        | put index' onComplete =>
            cases hputIndex
            cases block_of_callback h hcallback hput
            exact hother rn index put rfl hcallback hput
        | _ => cases hputIndex
    | _ => trivial

/-- The blocks that are called are the first of the queue, and a new one is the last. -/
theorem queue_step (h : c.Inv) (hrestored : c.Restored) (hhashless : c.Hashless)
    {e : Event Data Block} (hallowed : c.Allowed e) (horder : c.InOrder e)
    (hreleased : c.NotOvertaken e) :
    exists r, c.step e = some r ∧ Handled c e r ∧
      completed r.2 ++ r.1.queue = c.queue ++ e.issued := by
  rcases step_spec h hallowed with ⟨r, hstep, hhandled⟩
  refine ⟨r, hstep, hhandled, ?_⟩
  rcases answers_cases h e with ⟨rn, status, errorReason, index, put, rfl, hcallback, hput⟩ |
    ⟨hother, _⟩
  · rcases response_answered h hrestored horder hcallback hput with
      ⟨r', hr', hanswered, hout, hnot⟩
    rw [hstep] at hr'
    cases hr'
    exact (queue_answered hanswered hout (hnot.mp hreleased)).trans (List.append_nil _).symm
  · exact queue_unanswered hhashless hhandled.settles hother

end FPersistentConnection

namespace Session

open FPersistentConnection

variable {Data Block : Type}

/-!
## What each connection is sent
-/

def InOrder (session : Session Data Block) (e : Event Data Block) : Prop :=
  session.Allowed e ∧ session.connection.InOrder e

instance InOrder.decidable (session : Session Data Block) (e : Event Data Block) :
    Decidable (session.InOrder e) :=
  inferInstanceAs (Decidable (session.Allowed e ∧ session.connection.InOrder e))

structure Ordered (session : Session Data Block) : Prop where
  inv : session.Inv
  restored : session.connection.Restored

theorem ordered_init : (init : Session Data Block).Ordered where
  inv := inv_init
  restored := .of_offline inv_init.connection rfl

theorem ordered_step {session : Session Data Block} (h : session.Ordered) {e : Event Data Block}
    (horder : session.InOrder e) :
    exists r, session.step e = some (session.after e r) ∧ (session.after e r).Ordered ∧
      Handled session.connection e r := by
  rcases step_spec h.inv horder.left with ⟨r, hstep, hinv, hhandled⟩
  exact ⟨r, hstep,
    ⟨hinv, h.restored.moves h.inv.connection hhandled.inv hhandled.moves horder.right⟩, hhandled⟩

/--
The puts go out in the order in which they were issued, none of them twice.  Once
the state is restored the puts that wait for an answer are the last that were
sent, and the outstanding ones are the last of these.
-/
structure SentInOrder (session : Session Data Block) : Prop where
  increasing : session.connection.putsSent.Pairwise (· < ·)
  outstanding : session.connection.canSendWrites = true ->
    session.connection.keys <:+ session.connection.putsWaiting
  waiting : session.connection.canSendWrites = true ->
    session.connection.putsWaiting <:+ session.connection.putsSent

theorem sentInOrder_of_restored {session : Session Data Block}
    (h : session.connection.Restored) : session.SentInOrder := by
  have hdone : session.connection.canSendWrites = true ->
      session.connection.keys <:+ session.connection.putsWaiting ∧
        session.connection.putsWaiting <:+ session.connection.putsSent := by
    intro hcan
    have hconnected : session.connection.connectionState = .connected := by
      simpa [canSendWrites] using hcan
    cases h.stage with
    | offline hoffline => simp [connected, hconnected] at hoffline
    | pending rest hpending => simp [hconnected] at hpending
    | done _ _ hkeys hwaiting => exact ⟨hkeys, hwaiting⟩
  exact ⟨h.increasing, fun hcan => (hdone hcan).left, fun hcan => (hdone hcan).right⟩

theorem puts_sent_in_order {es : List (Event Data Block)}
    (hes : Runs.Guarded step InOrder init es) : Runs.Along step SentInOrder init es := by
  have halong := Runs.along_of_guarded (C := fun _ => True)
    (fun session e hordered _ horder => by
      rcases ordered_step hordered horder with ⟨r, hstep, hordered', _⟩
      exact ⟨_, hstep, fun _ => hordered'⟩)
    ordered_init (Runs.always_iff.mpr fun _ _ _ _ _ => trivial) hes
  exact halong.imp fun _ h => sentInOrder_of_restored h.left.restored

theorem puts_sent_in_order_reconnected :
    Runs.Along step SentInOrder init (reconnectedRun ++ [.onResponse 5 "ok" none]) :=
  puts_sent_in_order (by decide +kernel)

/-!
## The order of the answers
-/

/-- Neither a transaction nor a block that was issued before. -/
def Plain (session : Session Data Block) : Event Data Block -> Prop
  | .putData _ hash onComplete => hash = none ∧ onComplete ∉ session.issued
  | .mergeData _ onComplete => onComplete ∉ session.issued
  | _ => True

theorem plain_iff (session : Session Data Block) (e : Event Data Block) :
    (forall put, put ∈ e.put -> put.hash = none ∧ put.onCompleteBlock ∉ session.issued) <->
      session.Plain e := by
  cases e <;> simp [Plain, Event.put]

instance Plain.decidable [DecidableEq Block] (session : Session Data Block)
    (e : Event Data Block) : Decidable (session.Plain e) :=
  decidable_of_iff _ (plain_iff session e)

def NotOvertaken (session : Session Data Block) (e : Event Data Block) : Prop :=
  session.connection.NotOvertaken e

instance NotOvertaken.decidable (session : Session Data Block) (e : Event Data Block) :
    Decidable (session.NotOvertaken e) :=
  inferInstanceAs (Decidable (session.connection.NotOvertaken e))

/-- The puts were answered as they were issued, then come those held back, then the outstanding. -/
def AnsweredInOrder (session : Session Data Block) : Prop :=
  session.issued =
    session.completed ++ session.connection.held ++ session.connection.outstanding

theorem answeredInOrder_after (session : Session Data Block) (e : Event Data Block)
    (r : FPersistentConnection Data Block × List (Call Data Block)) :
    (session.after e r).AnsweredInOrder <->
      session.issued ++ e.issued =
        session.completed ++ FPersistentConnection.completed r.2 ++ r.1.held ++ r.1.outstanding :=
  Iff.rfl

def PlainInOrder (session : Session Data Block) (e : Event Data Block) : Prop :=
  session.InOrder e ∧ session.Plain e

instance PlainInOrder.decidable [DecidableEq Block] (session : Session Data Block)
    (e : Event Data Block) : Decidable (session.PlainInOrder e) :=
  inferInstanceAs (Decidable (session.InOrder e ∧ session.Plain e))

structure PlainInv (session : Session Data Block) : Prop where
  ordered : session.Ordered
  fresh : session.issued.Nodup
  hashless : session.connection.Hashless

theorem plainInv_init : (init : Session Data Block).PlainInv where
  ordered := ordered_init
  fresh := List.nodup_nil
  hashless := fun _ hentry => absurd hentry List.not_mem_nil

theorem fresh_after {session : Session Data Block} (h : session.issued.Nodup)
    {e : Event Data Block} (hplain : session.Plain e) : (session.issued ++ e.issued).Nodup := by
  have hone : forall block, block ∉ session.issued -> (session.issued ++ [block]).Nodup := by
    intro block hblock
    rw [List.nodup_append]
    refine ⟨h, List.nodup_singleton block, ?_⟩
    intro earlier hearlier last hlast heq
    rw [List.mem_singleton.mp hlast] at heq
    exact hblock (heq ▸ hearlier)
  cases e with
  | putData data hash onComplete => exact hone onComplete hplain.right
  | mergeData data onComplete => exact hone onComplete hplain
  | _ =>
      rw [show Event.issued _ = [] from rfl, List.append_nil]
      exact h

theorem hash_of_plain {session : Session Data Block} {e : Event Data Block}
    (hplain : session.Plain e) {put : FOutstandingPut Data Block} (hput : e.put = some put) :
    put.hash = none := by
  cases e with
  | putData data hash onComplete =>
      cases hput
      exact hplain.left
  | mergeData data onComplete =>
      cases hput
      rfl
  | _ => cases hput

/-- An answer is called in order exactly when those held back are not overtaken. -/
theorem order_answered {session : Session Data Block} (h : session.PlainInv) {index : Nat}
    {put : FOutstandingPut Data Block}
    {r : FPersistentConnection Data Block × List (Call Data Block)} {e : Event Data Block}
    (he : e.issued = []) (hanswered : Answered session.connection index put r)
    (hout : session.connection.outstanding = put.onCompleteBlock :: r.1.outstanding)
    (hP : session.AnsweredInOrder) :
    (session.after e r).AnsweredInOrder <->
      (session.connection.unackedListensCount = 0 ->
        session.connection.putsToAck.isEmpty = true) := by
  constructor
  · intro hafter hzero
    rcases hanswered.calls with ⟨_, hcalls, hheld⟩ | ⟨hnonzero, _⟩
    · cases hacks : session.connection.putsToAck with
      | nil => rfl
      | cons ack acks =>
          exfalso
          have hheld' : session.connection.held =
              ack.block :: acks.map FTupleCallbackStatus.block := by
            rw [held, hacks]
            rfl
          have hfresh := h.fresh
          rw [AnsweredInOrder, hheld', hout, List.append_assoc] at hP
          rw [answeredInOrder_after, he, List.append_nil, hP, hcalls, hheld, hheld',
            List.append_assoc, List.append_assoc] at hafter
          have hsame := List.append_cancel_left hafter
          rw [List.cons_append, List.singleton_append] at hsame
          rcases List.cons.inj hsame with ⟨hblock, _⟩
          rw [hP, hblock] at hfresh
          have htail := (List.nodup_append.mp hfresh).right.left
          rw [List.cons_append, List.nodup_cons] at htail
          exact htail.left (List.mem_append_right _ List.mem_cons_self)
    · exact absurd hzero hnonzero
  · intro hreleased
    have hqueue := queue_answered hanswered hout hreleased
    rw [AnsweredInOrder, List.append_assoc] at hP
    rw [answeredInOrder_after, he, List.append_nil, hP, List.append_assoc, List.append_assoc]
    exact congrArg (session.completed ++ ·) hqueue.symm

theorem order_step {session : Session Data Block} (h : session.PlainInv) {e : Event Data Block}
    (hplain : session.PlainInOrder e) :
    exists session', session.step e = some session' ∧ session'.PlainInv ∧
      (session.AnsweredInOrder -> (session'.AnsweredInOrder <-> session.NotOvertaken e)) := by
  rcases ordered_step h.ordered hplain.left with ⟨r, hstep, hordered, hhandled⟩
  have hinv := h.ordered.inv.connection
  refine ⟨_, hstep, ⟨hordered, fresh_after h.fresh hplain.right,
    h.hashless.after (fun _ hput => hash_of_plain hplain.right hput) hhandled.settles⟩, ?_⟩
  intro hP
  rcases answers_cases hinv e with ⟨rn, status, errorReason, index, put, rfl, hcallback, hput⟩ |
    ⟨hother, hreleased⟩
  · rcases response_answered hinv h.ordered.restored hplain.left.right hcallback hput with
      ⟨r', hr', hanswered, hout, hnot⟩
    have hsame : some (session.after _ r') = some (session.after _ r) :=
      (congrArg (Option.map (session.after _)) hr').symm.trans hstep
    rw [← Option.some.inj hsame]
    exact (order_answered h rfl hanswered hout hP).trans hnot.symm
  · have hqueue := queue_unanswered h.hashless hhandled.settles hother
    refine ⟨fun _ => hreleased, fun _ => ?_⟩
    rw [AnsweredInOrder, List.append_assoc] at hP
    rw [queue, queue] at hqueue
    rw [answeredInOrder_after, hP, List.append_assoc, ← hqueue, List.append_assoc,
      List.append_assoc]

/--
When the server answers in order, the blocks of the puts are called in the order
in which the puts were issued exactly when no put is answered at once while
answers before it are held back.
-/
theorem blocks_in_order_iff {es : List (Event Data Block)}
    (hes : Runs.Guarded step PlainInOrder init es) :
    Runs.Along step AnsweredInOrder init es <-> Runs.Guarded step NotOvertaken init es :=
  Runs.along_iff_guarded_within (fun _ _ h hplain => order_step h hplain) plainInv_init rfl hes

/-- A put is answered while a listen waits; the connection is lost, and so is the listen. -/
def heldRun : List (Event String Nat) :=
  connectRun 1 ++
    [.listen ["pelis"], .putData "Alien" none 7, .onResponse 3 "ok" none, .closeRealtime,
      .unlisten ["pelis"]] ++
    connectRun 2

theorem blocks_in_order_iff_heldRun :
    Runs.Along step AnsweredInOrder init (heldRun ++ [.putData "Heat" none 8]) ∧
      ¬ Runs.Along step AnsweredInOrder init
        (heldRun ++ [.putData "Heat" none 8, .onResponse 4 "ok" none]) := by
  constructor
  · exact (blocks_in_order_iff (by decide +kernel)).mpr (by decide +kernel)
  · exact mt (blocks_in_order_iff (by decide +kernel)).mp (by decide +kernel)

end Session

end Firebase
end MyMovies
