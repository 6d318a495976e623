import AegisNet.Tcp.HttpParser.Grammar
import AegisNet.WebChatServer.Replies
import Mathlib.Data.List.Forall2

/-!
# One response for each request

A client that sends its requests one after the other tells the responses apart by their count and
order alone. `main.cpp` answers the paths `/` and `/chat`; a request for another path falls through
the dispatch of `onMessage`, and the response to the next request takes its place.

## Main definitions

- `ClientEvent`, `Client.onEvent` — a read, or a broadcast on behalf of another connection
- `isHttpResponse` — the strings on a connection that are responses
- `OneResponseEach` — the responses are those to the requests, one for each and in their order

## Main results

- `Client.responses_foldl_onEvent` — which responses a sequence of requests gets
- `oneResponseEach_iff` — when it gets one each
-/

namespace AegisNet

/-- The strings that begin with a status line; the other strings sent are broadcasts. -/
def isHttpResponse (buf : Bytes) : Bool := http11.isPrefixOf buf

/-- The responses to a request. -/
def responsesTo (peer : Bytes) (request : Request) : List Bytes :=
  (answer peer request).filter isHttpResponse

/-- What happens at a connection: a read, or the `send` of a message that `broadcast` passes on
    for another connection. -/
inductive ClientEvent
  | read (chunk : Bytes)
  | broadcast (msg : Bytes)

/-- The bytes of the reads, in their order. -/
def reads : List ClientEvent → List Bytes
  | [] => []
  | .read chunk :: events => chunk :: reads events
  | .broadcast _ :: events => reads events

namespace Client

def onEvent (peer : Bytes) (c : Client) : ClientEvent → Client
  | .read chunk => c.onMessage peer chunk
  | .broadcast msg => c.send (broadcastText msg)

/-- The responses sent on the connection. -/
def responses (c : Client) : List Bytes := c.sent.filter isHttpResponse

end Client

/-- The connection is still open, and what has been sent of responses on it is one response to
    each of the requests, in their order. -/
def OneResponseEach (peer : Bytes) (requests : List Sentence) (events : List ClientEvent) : Prop :=
  (events.foldl (Client.onEvent peer) {}).state = .kConnected ∧
    List.Forall₂ (fun r response => response ∈ responsesTo peer (HttpParser.ofSentence r).request)
      requests (events.foldl (Client.onEvent peer) {}).responses

/-! ## Responses and broadcasts -/

theorem not_isHttpResponse_broadcastText (msg : Bytes) :
    isHttpResponse (broadcastText msg) = false := by
  rfl

theorem isHttpResponse_sendHttpResponse (contentType : String) (content : Bytes) :
    isHttpResponse (sendHttpResponse contentType content) = true := by
  rfl

/-- The dispatch of `onMessage`: one response for the two paths it knows. -/
theorem responsesTo_eq (peer : Bytes) (request : Request) :
    responsesTo peer request =
      if request.path = rootPath then
        [sendHttpResponse "text/html; charset=utf-8" (text g_chat_html)]
      else if request.path = chatPath then [sendHttpResponse "text/plain" (text "OK")]
      else [] := by
  rw [responsesTo, answer, replyTo]
  split
  · simp [Reply.strings, isHttpResponse_sendHttpResponse]
  · split
    · simp [Reply.strings, isHttpResponse_sendHttpResponse, not_isHttpResponse_broadcastText]
    · rfl

theorem length_responsesTo_le (peer : Bytes) (request : Request) :
    (responsesTo peer request).length ≤ 1 := by
  rw [responsesTo_eq]
  split
  · exact le_refl 1
  · split
    · exact le_refl 1
    · exact Nat.zero_le 1

theorem responsesTo_ne_nil_iff {peer : Bytes} {request : Request} :
    responsesTo peer request ≠ [] ↔ request.path = rootPath ∨ request.path = chatPath := by
  rw [responsesTo_eq]
  by_cases hroot : request.path = rootPath
  · simp [hroot]
  · by_cases hchat : request.path = chatPath
    · rw [if_neg hroot, if_pos hchat]
      simp [hchat]
    · simp [hroot, hchat]

/-! ## The stream of a sequence of requests -/

/-- A request that is complete is recorded, and the parser starts afresh. -/
theorem recorder_sentences (requests : List Sentence) (before : List Request) :
    recorder.drain (.new, before) (requests.flatMap Sentence.text) =
      ((.new, before ++ requests.map fun r => (HttpParser.ofSentence r).request), []) := by
  induction requests generalizing before with
  | nil =>
    rw [List.map_nil, List.append_nil]
    exact recorder_wait (by decide) rfl before
  | cons r rs ih =>
    rw [List.flatMap_cons, recorder_drain, HttpParser.drain_text, recorder_gotAll rfl,
      HttpParser.reset_eq_new, ih, List.map_cons, List.append_assoc]
    rfl

theorem parsed_sentences (requests : List Sentence) :
    parsed (requests.flatMap Sentence.text) =
      ((.new, requests.map fun r => (HttpParser.ofSentence r).request), []) := by
  rw [parsed, recorder_sentences, List.nil_append]

namespace Client

/-! ## Broadcasts in between -/

/-- Two clients that differ in the broadcasts they have been sent. -/
structure Alike (c d : Client) : Prop where
  parser : c.parser = d.parser
  inputBuffer : c.inputBuffer = d.inputBuffer
  state : c.state = d.state
  responses : c.responses = d.responses

theorem alike_self (c : Client) : Alike c c := ⟨rfl, rfl, rfl, rfl⟩

/-- A reply has the same effect on both. -/
theorem Alike.perform {c d : Client} (h : Alike c d) (reply : Reply) :
    Alike (c.perform reply) (d.perform reply) := by
  have hsend : ∀ buf, Alike (c.send buf) (d.send buf) := by
    intro buf
    rw [send, send, h.state]
    split
    · refine ⟨h.parser, h.inputBuffer, rfl, ?_⟩
      simp only [Client.responses, List.filter_append]
      exact congrArg (· ++ _) h.responses
    · exact h
  cases reply with
  | send buf => exact hsend buf
  | broadcast msg => exact hsend (broadcastText msg)
  | shutdown =>
    rw [Client.perform, Client.perform, shutdown, shutdown, h.state]
    split
    · exact ⟨h.parser, h.inputBuffer, rfl, h.responses⟩
    · exact h

theorem Alike.onMessage {c d : Client} (h : Alike c d) (peer chunk : Bytes) :
    Alike (c.onMessage peer chunk) (d.onMessage peer chunk) := by
  have hdrained : c.drained chunk = d.drained chunk := by
    rw [drained, drained, h.parser, h.inputBuffer]
  rw [Client.onMessage, Client.onMessage, hdrained]
  generalize replies peer (d.drained chunk).requests (d.drained chunk).malformedRequest = rs
  have hreceived : Alike (c.received chunk) (d.received chunk) := by
    rw [received, received, hdrained]
    exact ⟨rfl, rfl, h.state, h.responses⟩
  generalize c.received chunk = x at hreceived
  generalize d.received chunk = y at hreceived
  induction rs generalizing x y with
  | nil => exact hreceived
  | cons reply rs ih => exact ih _ _ (hreceived.perform reply)

/-- A broadcast is no response. -/
theorem Alike.broadcast {c d : Client} (h : Alike c d) (msg : Bytes) :
    Alike (c.send (broadcastText msg)) d := by
  rw [send]
  split
  · refine ⟨h.parser, h.inputBuffer, h.state, ?_⟩
    rw [← h.responses]
    simp [Client.responses, not_isHttpResponse_broadcastText]
  · exact h

/-- The broadcasts on behalf of other connections can be left out. -/
theorem alike_foldl_reads (peer : Bytes) (events : List ClientEvent) {c d : Client}
    (h : Alike c d) :
    Alike (events.foldl (onEvent peer) c) ((reads events).foldl (onMessage peer) d) := by
  induction events generalizing c d with
  | nil => exact h
  | cons event events ih =>
    cases event with
    | read chunk => exact ih (h.onMessage peer chunk)
    | broadcast msg => exact ih (h.broadcast msg)

/-- **What a sequence of requests gets**: the connection stays open, and the responses sent on it
    are those of the dispatch, request by request. -/
theorem responses_foldl_onEvent (peer : Bytes) {requests : List Sentence}
    {events : List ClientEvent} (h : (reads events).flatten = requests.flatMap Sentence.text) :
    (events.foldl (onEvent peer) {}).state = .kConnected ∧
      (events.foldl (onEvent peer) {}).responses =
        requests.flatMap fun r => responsesTo peer (HttpParser.ofSentence r).request := by
  have hm : ¬ MalformedIn (reads events).flatten := by
    rw [h, MalformedIn, parsed_sentences]
    show ¬ HttpRequestParseState.expectRequestLine = .error
    decide
  have halike := alike_foldl_reads peer events (alike_self {})
  have hfollows := (follows_nil peer).foldl (reads events)
  rw [List.nil_append] at hfollows
  obtain ⟨hstate, hsent⟩ := hfollows.connected hm
  refine ⟨halike.state.trans hstate, ?_⟩
  rw [halike.responses, responses, hsent, h, requestsIn, parsed_sentences, answers,
    List.filter_flatMap, List.flatMap_map]
  rfl

end Client

/-! ## One response each -/

/-- Lists of at most one element each, one after the other, hold one element for each when none
    of them is empty. -/
theorem forall₂_mem_flatMap_iff {α β : Type*} {f : α → List β} (hf : ∀ x, (f x).length ≤ 1)
    {xs : List α} :
    List.Forall₂ (fun x y => y ∈ f x) xs (xs.flatMap f) ↔ ∀ x ∈ xs, f x ≠ [] := by
  constructor
  · intro h
    generalize xs.flatMap f = ys at h
    induction h with
    | nil => simp
    | cons hmem _ ih => exact List.forall_mem_cons.mpr ⟨List.ne_nil_of_mem hmem, ih⟩
  · intro h
    induction xs with
    | nil => exact .nil
    | cons x xs ih =>
      obtain ⟨hx, hxs⟩ := List.forall_mem_cons.mp h
      obtain ⟨y, hy⟩ : ∃ y, f x = [y] := by
        have hlen := hf x
        have hpos := List.length_pos_iff.mpr hx
        exact List.length_eq_one_iff.mp (by omega)
      rw [List.flatMap_cons, hy, List.singleton_append]
      exact .cons (by rw [hy]; exact List.mem_singleton_self y) (ih hxs)

/-- **One response for each request, in their order**, exactly when every request is for `/` or
    for `/chat`: whatever the segmentation, and whatever other connections broadcast. -/
theorem oneResponseEach_iff (peer : Bytes) (requests : List Sentence) (events : List ClientEvent)
    (h : (reads events).flatten = requests.flatMap Sentence.text) :
    OneResponseEach peer requests events ↔
      ∀ r ∈ requests, r.target = rootPath ∨ r.target = chatPath := by
  obtain ⟨hstate, hresponses⟩ := Client.responses_foldl_onEvent peer h
  have hle : ∀ r : Sentence,
      (responsesTo peer (HttpParser.ofSentence r).request).length ≤ 1 :=
    fun r => length_responsesTo_le peer (HttpParser.ofSentence r).request
  rw [OneResponseEach, hresponses, forall₂_mem_flatMap_iff hle, and_iff_right hstate]
  apply forall₂_congr
  intro r _
  exact responsesTo_ne_nil_iff

/-- `GET target HTTP/1.1` without header lines. -/
def getRequest (target : Bytes) (h : target ≠ [] ∧ ∀ ch ∈ target, 0x20 < ch ∧ ch ≠ 0x7F) :
    Sentence :=
  { HttpParser.rootRequest with
    target := target
    target_visible := h }

/-- `GET /` -/
def getRoot : Sentence := getRequest rootPath (by decide +kernel)

/-- `GET /x` -/
def getUnknown : Sentence := getRequest [0x2F, 0x78] (by decide +kernel)

/-- A request for the page that comes in two reads, with a broadcast in between. -/
theorem oneResponseEach_getRoot : OneResponseEach [] [getRoot]
    [.read (getRoot.text.take 7), .broadcast [], .read (getRoot.text.drop 7)] := by
  apply (oneResponseEach_iff [] [getRoot] _ (by rfl)).mpr
  simp [getRoot, getRequest]

/-- The request for the page behind a request for another path: its response comes first. -/
theorem response_missing :
    ¬ OneResponseEach [] [getUnknown, getRoot] [.read (getUnknown.text ++ getRoot.text)] := by
  rintro ⟨-, hall⟩
  have hstream : (reads [.read (getUnknown.text ++ getRoot.text)]).flatten =
      [getUnknown, getRoot].flatMap Sentence.text := by
    simp [reads]
  rw [(Client.responses_foldl_onEvent [] hstream).2] at hall
  have hlen := hall.length_eq
  simp [responsesTo_eq, HttpParser.ofSentence, HttpParser.request, getUnknown, getRoot, getRequest,
    rootPath, chatPath] at hlen

end AegisNet
