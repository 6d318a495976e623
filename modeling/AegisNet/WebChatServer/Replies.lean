import AegisNet.Tcp.HttpParser.Drain
import AegisNet.Tcp.TcpConnection

/-!
# The answers of the chat server

What `WebChatServer::onMessage` of `main.cpp` does with the requests of one read: it collects all of
them first, and on a malformed one it answers 400 and shuts the connection down, without a look at
those collected before it. `Client` follows one connection from read to read.

## Main definitions

- `Reply`, `replies` — what `onMessage` does after its drain loop
- `Client`, `Client.onMessage` — the parser, the buffer and the state of a connection, and its sends
- `requestsIn`, `MalformedIn` — the requests of a byte stream, and whether a malformed one ends it
- `NoneLost` — no request that has an answer is completed by the read that meets a malformed one

## Main results

- `Client.sent_eq_sent_bytewise_iff` — when the cutting of a stream into reads shows in the answers
-/

namespace AegisNet

/-! ## Texts -/

def g_chat_html : String := "
<!DOCTYPE html>
<html>
<head>
    <meta charset=\"UTF-8\">
    <title>LunaNet WebChat</title>
</head>
<body style=\"font-family: Arial, sans-serif; background-color: #f4f4f9; padding: 20px;\">
    <h2 style=\"color: #333;\">🚀 LunaNet 生产级 WebChat 演示</h2>
    <div id=\"chat-box\" style=\"height:400px; border:1px solid #ccc; overflow-y:scroll; " ++
  "background:white; padding:10px; border-radius: 8px;\"></div>
    <div style=\"margin-top: 15px;\">
        <input type=\"text\" id=\"msg-input\" placeholder=\"输入聊天内容...\" " ++
  "style=\"width:70%; padding: 10px; border-radius: 4px; border: 1px solid #ccc;\">
        <button onclick='sendMsg()' style=\"padding: 10px 20px; background-color: " ++
  "#007BFF; color: white; border: none; border-radius: 4px; cursor: pointer;\">发送</button>
    </div>
    <script>
        function sendMsg() \x7b
            const input = document.getElementById('msg-input');
            const val = input.value;
            if(!val) return;
            fetch('/chat', \x7b method: 'POST', body: val \x7d);

            const box = document.getElementById('chat-box');
            box.innerHTML += '<div style=\"margin-bottom:8px;\"><b>我:</b> ' + val + " ++
  "'</div>';
            box.scrollTop = box.scrollHeight;
            input.value = '';
        \x7d
    </script>
</body>
</html>
"

/-- The string that `sendHttpResponse` sends. -/
def sendHttpResponse (contentType : String) (content : Bytes) : Bytes :=
  text "HTTP/1.1 200 OK\r\n" ++ text ("Content-Type: " ++ contentType ++ "\r\n") ++
    text ("Content-Length: " ++ toString content.length ++ "\r\n") ++
    text "Connection: Keep-Alive\r\n" ++ text "\r\n" ++ content

def badRequest : Bytes :=
  text "HTTP/1.1 400 Bad Request\r\nContent-Length: 0\r\nConnection: close\r\n\r\n"

/-- `/` -/
def rootPath : Bytes := [0x2F]

/-- `/chat` -/
def chatPath : Bytes := [0x2F, 0x63, 0x68, 0x61, 0x74]

/-! ## Replies -/

/-- What `onMessage` does: `conn->send`, `broadcast`, `conn->shutdown`. -/
inductive Reply
  | send (buf : Bytes)
  | broadcast (msg : Bytes)
  | shutdown
  deriving DecidableEq

/-- One round of the loop over the requests; `peer` is `conn->peerAddress().toIpPort()`. -/
def replyTo (peer : Bytes) (request : Request) : List Reply :=
  if request.path = rootPath then
    [.send (sendHttpResponse "text/html; charset=utf-8" (text g_chat_html))]
  else if request.path = chatPath then
    [.broadcast (text "[" ++ peer ++ text "]: " ++ request.body),
      .send (sendHttpResponse "text/plain" (text "OK"))]
  else []

/-- `onMessage` behind its drain loop. -/
def replies (peer : Bytes) (requests : List Request) (malformedRequest : Bool) : List Reply :=
  if malformedRequest then [.send badRequest, .shutdown]
  else requests.flatMap (replyTo peer)

/-- What `broadcast` passes to `send` for every connection. -/
def broadcastText (msg : Bytes) : Bytes := text "Broadcast: " ++ msg ++ text "\r\n"

/-- The strings of a reply that are passed to `send` on the connection itself, which is among those
    of a broadcast. -/
def Reply.strings : Reply → List Bytes
  | send buf => [buf]
  | broadcast msg => [broadcastText msg]
  | shutdown => []

/-- The answer to a request. -/
def answer (peer : Bytes) (request : Request) : List Bytes :=
  (replyTo peer request).flatMap Reply.strings

def answers (peer : Bytes) (requests : List Request) : List Bytes := requests.flatMap (answer peer)

theorem answer_eq_nil_iff {peer : Bytes} {r : Request} :
    answer peer r = [] ↔ r.path ≠ rootPath ∧ r.path ≠ chatPath := by
  unfold answer replyTo
  split
  · next h => simp [h, Reply.strings]
  · next h =>
    split
    · next h' => simp [h', Reply.strings]
    · next h' => simp [h, h']

/-! ## A connection, read by read -/

/-- What `onMessage` uses of a connection; no other client is active. -/
structure Client where
  parser : HttpParser := .new
  inputBuffer : Buffer := .new
  state : StateE := .kConnected
  /-- The strings passed to `send` while the connection was `kConnected`. -/
  sent : List Bytes := []

namespace Client

def send (c : Client) (buf : Bytes) : Client :=
  if c.state = .kConnected then { c with sent := c.sent ++ [buf] } else c

def shutdown (c : Client) : Client :=
  if c.state = .kConnected then { c with state := .kDisconnecting } else c

def perform (c : Client) : Reply → Client
  | .send buf => c.send buf
  | .broadcast msg => c.send (broadcastText msg)
  | .shutdown => c.shutdown

/-- The drain loop after a read of `chunk`. -/
def drained (c : Client) (chunk : Bytes) : Drained :=
  drainLoop c.parser (c.inputBuffer.readFd chunk) []

def received (c : Client) (chunk : Bytes) : Client :=
  { c with parser := (c.drained chunk).parser, inputBuffer := (c.drained chunk).buf }

/-- A read of `chunk`, and the `onMessage` that follows it. -/
def onMessage (peer : Bytes) (c : Client) (chunk : Bytes) : Client :=
  (replies peer (c.drained chunk).requests (c.drained chunk).malformedRequest).foldl perform
    (c.received chunk)

theorem parser_foldl_perform (rs : List Reply) (c : Client) :
    (rs.foldl perform c).parser = c.parser ∧
      (rs.foldl perform c).inputBuffer = c.inputBuffer := by
  induction rs generalizing c with
  | nil => exact ⟨rfl, rfl⟩
  | cons r rs ih =>
    have hperform : (c.perform r).parser = c.parser ∧
        (c.perform r).inputBuffer = c.inputBuffer := by
      cases r <;> simp only [perform, send, shutdown] <;> split <;> exact ⟨rfl, rfl⟩
    rw [List.foldl_cons, (ih _).1, (ih _).2]
    exact hperform

/-- While the connection is `kConnected`, everything is sent. -/
theorem foldl_perform_of_kConnected {rs : List Reply} {c : Client} (h : c.state = .kConnected)
    (hrs : Reply.shutdown ∉ rs) : (rs.foldl perform c).state = .kConnected ∧
      (rs.foldl perform c).sent = c.sent ++ rs.flatMap Reply.strings := by
  induction rs generalizing c with
  | nil => simp [h]
  | cons r rs ih =>
    have hperform : (c.perform r).state = .kConnected ∧
        (c.perform r).sent = c.sent ++ r.strings := by
      cases r with
      | send buf => simp [perform, send, h, Reply.strings]
      | broadcast msg => simp [perform, send, h, Reply.strings]
      | shutdown => exact absurd List.mem_cons_self hrs
    obtain ⟨hstate, hsent⟩ := ih hperform.1 fun hmem => hrs (List.mem_cons_of_mem _ hmem)
    refine ⟨hstate, ?_⟩
    rw [List.foldl_cons, hsent, hperform.2, List.append_assoc, List.flatMap_cons]

/-- Afterwards nothing is. -/
theorem foldl_perform_of_ne {rs : List Reply} {c : Client} (h : c.state ≠ .kConnected) :
    (rs.foldl perform c).state = c.state ∧ (rs.foldl perform c).sent = c.sent := by
  induction rs generalizing c with
  | nil => exact ⟨rfl, rfl⟩
  | cons r rs ih =>
    have hperform : c.perform r = c := by cases r <;> simp [perform, send, shutdown, h]
    rw [List.foldl_cons, hperform]
    exact ih h

end Client

/-! ## Streams -/

/-- The recording parser at the end of a stream. -/
def parsed (stream : Bytes) : (HttpParser × List Request) × Bytes :=
  recorder.drain (.new, []) stream

/-- The requests that a stream completes, up to a malformed one. -/
def requestsIn (stream : Bytes) : List Request := (parsed stream).1.2

/-- The stream shows a malformed request. -/
def MalformedIn (stream : Bytes) : Prop := (parsed stream).1.1.state = .error

instance (stream : Bytes) : Decidable (MalformedIn stream) := inferInstanceAs (Decidable (_ = _))

theorem parsed_append (stream more : Bytes) :
    parsed (stream ++ more) = recorder.drain (parsed stream).1 ((parsed stream).2 ++ more) :=
  recorder.drain_append _ _ _

/-- At the end of a stream the parser waits. -/
theorem parsed_waits (stream : Bytes) :
    (parsed stream).1.1.state ≠ .gotAll ∧ (parsed stream).1.1.move (parsed stream).2 = none := by
  have h := recorder.step_drain (HttpParser.new, []) stream
  change recorder.step (parsed stream).1 (parsed stream).2 = none at h
  simp only [recorder] at h
  split at h
  · cases h
  · next hg => exact ⟨hg, by simpa using h⟩

/-- A malformed request is final. -/
theorem MalformedIn.append {stream : Bytes} (h : MalformedIn stream) (more : Bytes) :
    (parsed (stream ++ more)).1 = (parsed stream).1 := by
  have hg : (parsed stream).1.1.state ≠ .gotAll := (parsed_waits stream).1
  rw [parsed_append, recorder_wait hg (HttpParser.move_of_finished (.inr h) _)]

theorem requestsIn_append (stream more : Bytes) :
    requestsIn (stream ++ more) = requestsIn stream ++
      (recorder.drain ((parsed stream).1.1, []) ((parsed stream).2 ++ more)).1.2 := by
  have hbase := recorder_base (requestsIn stream) ((parsed stream).1.1, [])
    ((parsed stream).2 ++ more)
  rw [List.append_nil] at hbase
  rw [requestsIn, parsed_append]
  exact congrArg (fun y => y.1.2) hbase

/-- A stream that is malformed becomes so in one of its reads. -/
theorem MalformedIn.exists_read {chunks : List Bytes} (h : MalformedIn chunks.flatten) :
    ∃ front chunk back, chunks = front ++ chunk :: back ∧ ¬ MalformedIn front.flatten ∧
      MalformedIn (front.flatten ++ chunk) := by
  induction chunks using List.reverseRecOn with
  | nil =>
    have hnil : parsed [] = ((.new, []), []) := recorder_wait (by decide) rfl []
    rw [MalformedIn, List.flatten_nil, hnil] at h
    cases h
  | append_singleton chunks chunk ih =>
    by_cases hm : MalformedIn chunks.flatten
    · obtain ⟨front, c, back, rfl, hfront, hc⟩ := ih hm
      exact ⟨front, c, back ++ [chunk], by simp, hfront, hc⟩
    · exact ⟨chunks, chunk, [], rfl, hm, by simpa using h⟩

namespace Client

/-- A client after the reads of a stream. -/
structure Follows (peer : Bytes) (c : Client) (stream : Bytes) : Prop where
  parser : c.parser = (parsed stream).1.1
  inputBuffer : c.inputBuffer.readable = (parsed stream).2
  connected : ¬ MalformedIn stream →
    c.state = .kConnected ∧ c.sent = answers peer (requestsIn stream)
  closed : MalformedIn stream → c.state ≠ .kConnected

theorem follows_nil (peer : Bytes) : Follows peer {} [] := by
  have hnil : parsed [] = ((.new, []), []) := recorder_wait (by decide) rfl []
  refine ⟨by rw [hnil], by rw [hnil, Buffer.readable_new], fun _ => ⟨rfl, ?_⟩, fun h => ?_⟩
  · rw [requestsIn, hnil]
    rfl
  · rw [MalformedIn, hnil] at h
    cases h

/-- What the drain loop of a read finds, as a part of the stream. -/
theorem Follows.drain {peer : Bytes} {c : Client} {stream : Bytes} (h : Follows peer c stream)
    (chunk : Bytes) :
    (c.drained chunk).parser = (parsed (stream ++ chunk)).1.1 ∧
      (c.drained chunk).buf.readable = (parsed (stream ++ chunk)).2 ∧
      requestsIn (stream ++ chunk) = requestsIn stream ++ (c.drained chunk).requests ∧
      ((c.drained chunk).malformedRequest = true ↔ MalformedIn (stream ++ chunk)) := by
  obtain ⟨hd, hmalformed⟩ := drainLoop_eq_drain c.parser (c.inputBuffer.readFd chunk) []
  rw [Buffer.readable_readFd, h.inputBuffer, h.parser] at hd
  have hbase := recorder_base (requestsIn stream) ((parsed stream).1.1, [])
    ((parsed stream).2 ++ chunk)
  rw [List.append_nil] at hbase
  have hparsed : parsed (stream ++ chunk) = _ := (parsed_append stream chunk).trans hbase
  have hparser : (c.drained chunk).parser = (parsed (stream ++ chunk)).1.1 := by
    rw [hparsed, ← hd, ← h.parser]
    rfl
  refine ⟨hparser, ?_, ?_, ?_⟩
  · rw [hparsed, ← hd, ← h.parser]
    rfl
  · rw [requestsIn_append, ← hd, ← h.parser]
    rfl
  · rw [MalformedIn, ← hparser]
    exact hmalformed

theorem shutdown_notMem_replies (peer : Bytes) (requests : List Request) :
    Reply.shutdown ∉ replies peer requests false := by
  simp only [replies, Bool.false_eq_true, if_false, List.mem_flatMap, not_exists, not_and]
  intro r _
  unfold replyTo
  split
  · simp
  · split <;> simp

/-- A read answers the requests it completes, or it answers 400. -/
theorem Follows.onMessage {peer : Bytes} {c : Client} {stream : Bytes}
    (h : Follows peer c stream) (chunk : Bytes) :
    Follows peer (c.onMessage peer chunk) (stream ++ chunk) ∧
      (¬ MalformedIn stream → MalformedIn (stream ++ chunk) →
        (c.onMessage peer chunk).sent = c.sent ++ [badRequest]) ∧
      (MalformedIn stream → (c.onMessage peer chunk).sent = c.sent) := by
  obtain ⟨hparser, hbuf, hrequests, hmalformed⟩ := h.drain chunk
  obtain ⟨hp, hb⟩ := parser_foldl_perform (replies peer (c.drained chunk).requests
    (c.drained chunk).malformedRequest) (c.received chunk)
  have hparser' : (c.onMessage peer chunk).parser = (parsed (stream ++ chunk)).1.1 :=
    hp.trans hparser
  have hbuf' : (c.onMessage peer chunk).inputBuffer.readable = (parsed (stream ++ chunk)).2 :=
    (congrArg Buffer.readable hb).trans hbuf
  by_cases hs : MalformedIn stream
  · -- the connection is no longer `kConnected`
    have hne : (c.received chunk).state ≠ .kConnected := h.closed hs
    have hm : MalformedIn (stream ++ chunk) := by rwa [MalformedIn, hs.append]
    refine ⟨⟨hparser', hbuf', fun hn => absurd hm hn, fun _ => ?_⟩, fun hn => absurd hs hn,
      fun _ => (foldl_perform_of_ne hne).2⟩
    rw [Client.onMessage, (foldl_perform_of_ne hne).1]
    exact hne
  · obtain ⟨hstate, hsent⟩ := h.connected hs
    have hconnected : (c.received chunk).state = .kConnected := hstate
    by_cases hm : MalformedIn (stream ++ chunk)
    · -- the requests of this read are dropped
      have hreplies : c.onMessage peer chunk =
          ((c.received chunk).send badRequest).shutdown := by
        rw [Client.onMessage, hmalformed.mpr hm]
        rfl
      have hsend : (c.received chunk).send badRequest =
          { c.received chunk with sent := c.sent ++ [badRequest] } := by
        rw [send, if_pos hconnected]
        rfl
      refine ⟨⟨hparser', hbuf', fun hn => absurd hm hn, fun _ => ?_⟩, fun _ _ => ?_,
        fun hn => absurd hn hs⟩
      · simp [hreplies, hsend, shutdown, hconnected]
      · simp [hreplies, hsend, shutdown, hconnected]
    · have hfalse : (c.drained chunk).malformedRequest = false :=
        Bool.not_eq_true _ ▸ fun ht => hm (hmalformed.mp ht)
      obtain ⟨hstate', hsent'⟩ := foldl_perform_of_kConnected hconnected
        (shutdown_notMem_replies peer (c.drained chunk).requests)
      refine ⟨⟨hparser', hbuf', fun _ => ?_, fun hn => absurd hn hm⟩, fun _ hn => absurd hn hm,
        fun hn => absurd hn hs⟩
      rw [Client.onMessage, hfalse, hstate', hsent', hrequests, answers, List.flatMap_append]
      refine ⟨rfl, ?_⟩
      rw [show (c.received chunk).sent = c.sent from rfl, hsent, replies, if_neg (by simp),
        List.flatMap_assoc]
      rfl

theorem Follows.foldl {peer : Bytes} {c : Client} {stream : Bytes} (h : Follows peer c stream)
    (chunks : List Bytes) :
    Follows peer (chunks.foldl (Client.onMessage peer) c) (stream ++ chunks.flatten) := by
  induction chunks generalizing c stream with
  | nil => simpa using h
  | cons chunk chunks ih =>
    rw [List.flatten_cons, ← List.append_assoc]
    exact ih (h.onMessage chunk).1

/-- After a malformed request nothing more is sent. -/
theorem Follows.sent_foldl {peer : Bytes} {c : Client} {stream : Bytes} (h : Follows peer c stream)
    (hm : MalformedIn stream) (chunks : List Bytes) :
    (chunks.foldl (Client.onMessage peer) c).sent = c.sent := by
  induction chunks generalizing c stream with
  | nil => rfl
  | cons chunk chunks ih =>
    obtain ⟨hnext, -, hsent⟩ := h.onMessage chunk
    have hm' : MalformedIn (stream ++ chunk) := by rwa [MalformedIn, hm.append]
    rw [List.foldl_cons, ih hnext hm', hsent hm]

/-- A well-formed stream is answered, however it is cut. -/
theorem sent_of_not_malformed (peer : Bytes) {chunks : List Bytes}
    (h : ¬ MalformedIn chunks.flatten) :
    (chunks.foldl (onMessage peer) {}).sent = answers peer (requestsIn chunks.flatten) :=
  (((follows_nil peer).foldl chunks).connected h).2

/-- The requests completed by the read that meets a malformed one are not answered. -/
theorem sent_of_malformed (peer : Bytes) {front back : List Bytes} {chunk : Bytes}
    (hfront : ¬ MalformedIn front.flatten) (hchunk : MalformedIn (front.flatten ++ chunk)) :
    ((front ++ chunk :: back).foldl (onMessage peer) {}).sent =
      answers peer (requestsIn front.flatten) ++ [badRequest] := by
  have hfollows : Follows peer (front.foldl (onMessage peer) {}) front.flatten :=
    (follows_nil peer).foldl front
  obtain ⟨hnext, hsent, -⟩ := hfollows.onMessage chunk
  rw [List.foldl_append, List.foldl_cons, hnext.sent_foldl hchunk, hsent hfront hchunk,
    (hfollows.connected hfront).2]

/-- Each byte in a read of its own. -/
def bytewise (stream : Bytes) : List Bytes := stream.map fun x => [x]

theorem flatten_bytewise (stream : Bytes) : (bytewise stream).flatten = stream := by
  induction stream with
  | nil => rfl
  | cons x stream ih => exact congrArg (x :: ·) ih

/-- Byte by byte, every request in front of a malformed one is answered. -/
theorem sent_bytewise (peer : Bytes) {stream : Bytes} (h : MalformedIn stream) :
    ((bytewise stream).foldl (onMessage peer) {}).sent =
      answers peer (requestsIn stream) ++ [badRequest] := by
  rw [← flatten_bytewise stream] at h
  obtain ⟨front, chunk, back, hsplit, hfront, hchunk⟩ := h.exists_read
  obtain ⟨x, rfl⟩ : ∃ x, chunk = [x] := by
    have hmem : chunk ∈ bytewise stream := by simp [hsplit]
    obtain ⟨x, -, rfl⟩ := List.mem_map.mp hmem
    exact ⟨x, rfl⟩
  have hsame : requestsIn (front.flatten ++ [x]) = requestsIn front.flatten := by
    obtain ⟨hg, hwait⟩ := parsed_waits front.flatten
    obtain hrs | hne := recorder_drain_concat hg hwait x (requestsIn front.flatten)
    · rw [requestsIn, parsed_append]
      exact hrs
    · rw [MalformedIn, parsed_append] at hchunk
      exact absurd hchunk hne
  have hwhole : requestsIn stream = requestsIn front.flatten := by
    have hstream : stream = front.flatten ++ [x] ++ back.flatten := by
      rw [← flatten_bytewise stream, hsplit]
      simp
    rw [hstream, requestsIn, hchunk.append, ← hsame]
    rfl
  rw [hsplit, sent_of_malformed peer hfront hchunk, hwhole]

/-- In no read that first shows a malformed request, a request for the page or for the chat is
    completed. -/
def NoneLost (chunks : List Bytes) : Prop :=
  ∀ front chunk back, chunks = front ++ chunk :: back → ¬ MalformedIn front.flatten →
    MalformedIn (front.flatten ++ chunk) →
    ∀ r ∈ (requestsIn (front.flatten ++ chunk)).drop (requestsIn front.flatten).length,
      r.path ≠ rootPath ∧ r.path ≠ chatPath

/-- The answers to the requests that a read completes. -/
theorem answers_drop (peer : Bytes) (stream more : Bytes) :
    answers peer (requestsIn (stream ++ more)) = answers peer (requestsIn stream) ++
      answers peer ((requestsIn (stream ++ more)).drop (requestsIn stream).length) := by
  rw [requestsIn_append, List.drop_left, answers, List.flatMap_append]
  rfl

theorem answers_eq_nil_iff {peer : Bytes} {rs : List Request} :
    answers peer rs = [] ↔ ∀ r ∈ rs, r.path ≠ rootPath ∧ r.path ≠ chatPath := by
  simp only [answers, List.flatMap_eq_nil_iff, answer_eq_nil_iff]

/-- **Segmentation shows** in the answers exactly when a request that has one is completed by the
    read that first shows a malformed request: then it is not answered. -/
theorem sent_eq_sent_bytewise_iff (peer : Bytes) (chunks : List Bytes) :
    (chunks.foldl (onMessage peer) {}).sent =
        ((bytewise chunks.flatten).foldl (onMessage peer) {}).sent ↔ NoneLost chunks := by
  by_cases hm : MalformedIn chunks.flatten
  · rw [sent_bytewise peer hm]
    -- what a malformed stream is answered depends on the read in which it shows
    have hiff : ∀ front chunk back, chunks = front ++ chunk :: back → ¬ MalformedIn front.flatten →
        MalformedIn (front.flatten ++ chunk) →
        ((chunks.foldl (onMessage peer) {}).sent =
            answers peer (requestsIn chunks.flatten) ++ [badRequest] ↔
          ∀ r ∈ (requestsIn (front.flatten ++ chunk)).drop (requestsIn front.flatten).length,
            r.path ≠ rootPath ∧ r.path ≠ chatPath) := by
      rintro front chunk back rfl hfront hchunk
      have hwhole : requestsIn (front ++ chunk :: back).flatten =
          requestsIn (front.flatten ++ chunk) := by
        rw [List.flatten_append, List.flatten_cons, ← List.append_assoc, requestsIn, hchunk.append]
        rfl
      rw [sent_of_malformed peer hfront hchunk, hwhole, List.append_left_inj, answers_drop,
        List.self_eq_append_right, answers_eq_nil_iff]
    constructor
    · intro hsent front chunk back hsplit hfront hchunk
      exact (hiff front chunk back hsplit hfront hchunk).mp hsent
    · intro hnone
      obtain ⟨front, chunk, back, hsplit, hfront, hchunk⟩ := hm.exists_read
      exact (hiff front chunk back hsplit hfront hchunk).mpr
        (hnone front chunk back hsplit hfront hchunk)
  · have hbytes : ¬ MalformedIn (bytewise chunks.flatten).flatten := by
      rwa [flatten_bytewise]
    rw [sent_of_not_malformed peer hm, sent_of_not_malformed peer hbytes, flatten_bytewise]
    refine iff_of_true rfl ?_
    rintro front chunk back rfl hfront hchunk
    refine absurd ?_ hm
    rw [List.flatten_append, List.flatten_cons, ← List.append_assoc, MalformedIn, hchunk.append]
    exact hchunk

/-- A request for the chat, and a blank line where the next request should start. -/
def pipelined : Bytes :=
  [0x47, 0x45, 0x54, 0x20] ++ chatPath ++ [0x20] ++ http11 ++ [0x0D, 0x0A, 0x0D, 0x0A, 0x0D, 0x0A]

theorem parsed_pipelined : ∃ y, parsed pipelined = y ∧ y.1.1.state = .error ∧
    y.1.2.map Request.path = [chatPath] :=
  ⟨_, (recorder.drain_of_some rfl).trans <| (recorder.drain_of_some rfl).trans <|
    (recorder.drain_of_some rfl).trans <| (recorder.drain_of_some rfl).trans <|
    recorder.drain_of_none rfl, rfl, rfl⟩

/-- In one read, the request for the chat is answered 400. -/
theorem not_sent_eq_sent_bytewise : ¬ ∀ (peer : Bytes) (chunks : List Bytes),
    (chunks.foldl (onMessage peer) {}).sent =
      ((bytewise chunks.flatten).foldl (onMessage peer) {}).sent := by
  intro h
  obtain ⟨y, hy, herror, hpaths⟩ := parsed_pipelined
  have hm : MalformedIn pipelined := by rwa [MalformedIn, hy]
  have hnil : ¬ MalformedIn ([] : List Bytes).flatten := fun hm =>
    ((follows_nil []).closed hm) rfl
  have hone : ([pipelined].foldl (onMessage []) {}).sent =
      answers [] (requestsIn []) ++ [badRequest] :=
    sent_of_malformed [] hnil hm
  have hempty : requestsIn [] = [] := by
    rw [requestsIn, parsed, recorder_wait (by decide) rfl]
  specialize h [] [pipelined]
  rw [hone, List.flatten_singleton, sent_bytewise [] hm, List.append_left_inj, hempty] at h
  have hr : ∀ r ∈ requestsIn pipelined, r.path ≠ rootPath ∧ r.path ≠ chatPath :=
    answers_eq_nil_iff.mp h.symm
  have hmem : chatPath ∈ (requestsIn pipelined).map Request.path := by
    rw [requestsIn, hy, hpaths]
    exact List.mem_singleton_self _
  obtain ⟨r, hrmem, hpath⟩ := List.mem_map.mp hmem
  exact (hr r hrmem).2 hpath

end Client

end AegisNet
