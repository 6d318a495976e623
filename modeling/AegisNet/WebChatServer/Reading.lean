import AegisNet.Lib.Frames
import AegisNet.Tcp.HttpResponse.Decode
import AegisNet.WebChatServer.Wire

/-!
# What clients read

A client of the chat server gets HTTP responses and broadcast lines on one stream, in pieces of any
size. Each of them tells its end: a response by its `Content-Length`, a broadcast by its CRLF. So the
stream can be taken apart again, as long as no broadcast message contains a CRLF itself.

## Main definitions

- `Frame`, `readFrame` — a reader that tells a broadcast from a response by its first byte
- `Says` — what the strings that the server sends mean

## Main results

- `WebChatServer.clients_read` — each client reads what the server has sent it
-/

namespace AegisNet

/-- What a client takes from its stream. -/
inductive Frame
  | reply (reply : HttpResponse.Reply)
  | broadcast (msg : Bytes)
  deriving DecidableEq

/-- `Broadcast: ` -/
def broadcastTag : Bytes := text "Broadcast: "

/-- The frame at the front of some bytes, and the bytes behind it. A response does not begin with
    the letter `B`. -/
def readFrame (bytes : Bytes) : Option (Frame × Bytes) :=
  match bytes.head? with
  | none => none
  | some first =>
    if first = 0x42 then
      (ListSearch.search Buffer.kCRLF bytes).map fun i =>
        (.broadcast ((bytes.take i).drop broadcastTag.length), bytes.drop (i + 2))
    else (HttpResponse.readReply bytes).map fun x => (.reply x.1, x.2)

/-! ## The reader -/

namespace HttpResponse

/-- Of the bytes behind the head the reader takes a number that the head says. -/
theorem readReply_eq_some {bytes rest : Bytes} {reply : Reply}
    (h : readReply bytes = some (reply, rest)) :
    ∃ lines body length, Lines.head 0x0D 0x0A bytes = some (lines, body) ∧ length ≤ body.length ∧
      reply.body = body.take length ∧ rest = body.drop length ∧
      ∀ bytes' body', Lines.head 0x0D 0x0A bytes' = some (lines, body') → length ≤ body'.length →
        readReply bytes' = some ({ reply with body := body'.take length }, body'.drop length) := by
  obtain ⟨⟨lines, body⟩, hhead, h⟩ := Option.bind_eq_some_iff.mp h
  cases lines with
  | nil => cases h
  | cons statusLine fieldLines =>
    obtain ⟨status, hstatus, h⟩ := Option.bind_eq_some_iff.mp h
    obtain ⟨fields, hfields, h⟩ := Option.bind_eq_some_iff.mp h
    split at h
    · next choice hchoice =>
      split at h
      · next size hsize =>
        obtain ⟨close, hclose, h⟩ := Option.bind_eq_some_iff.mp h
        obtain ⟨length, hlength, h⟩ := Option.bind_eq_some_iff.mp h
        split at h
        · cases h
        · next hle =>
          obtain ⟨rfl, rfl⟩ := Prod.mk.inj (Option.some.inj h)
          refine ⟨_, body, length, hhead, Nat.not_lt.mp hle, rfl, rfl, fun bytes' body' hhead' hle' => ?_⟩
          simp only [readReply, hhead', hstatus, hfields, hchoice, hsize, hclose, hlength,
            Option.bind_eq_bind, Option.bind_some, if_neg (Nat.not_lt.mpr hle')]
      · cases h
    · cases h

/-- A response is not affected by what comes behind it. -/
theorem readReply_append {bytes rest : Bytes} {reply : Reply}
    (h : readReply bytes = some (reply, rest)) (more : Bytes) :
    readReply (bytes ++ more) = some (reply, rest ++ more) := by
  obtain ⟨lines, body, length, hhead, hle, hbody, hrest, hread⟩ := readReply_eq_some h
  rw [hread _ (body ++ more) (Lines.head_append hhead more) (by rw [List.length_append]; omega),
    List.take_append_of_le_length hle, List.drop_append_of_le_length hle, ← hbody, ← hrest]

theorem length_of_readReply {bytes rest : Bytes} {reply : Reply}
    (h : readReply bytes = some (reply, rest)) : rest.length < bytes.length := by
  obtain ⟨lines, body, length, hhead, -, -, rfl, -⟩ := readReply_eq_some h
  have hlt := Lines.length_lt_of_head hhead
  rw [List.length_drop]
  omega

end HttpResponse

/-- The page, as a client reads it. -/
def pageReply : HttpResponse.Reply :=
  ⟨200, false, [(text "Content-Type", text "text/html; charset=utf-8")], text g_chat_html⟩

def okReply : HttpResponse.Reply := ⟨200, false, [(text "Content-Type", text "text/plain")], text "OK"⟩

theorem readReply_page :
    HttpResponse.readReply (sendHttpResponse "text/html; charset=utf-8" (text g_chat_html)) =
      some (pageReply, []) := by
  decide +kernel

theorem readReply_ok :
    HttpResponse.readReply (sendHttpResponse "text/plain" (text "OK")) = some (okReply, []) := by
  decide +kernel

theorem readReply_badRequest :
    HttpResponse.readReply badRequest = some (⟨400, true, [], []⟩, []) := by
  decide +kernel

/-- The two ways to take a frame. -/
theorem readFrame_eq_some_iff {bytes rest : Bytes} {frame : Frame} :
    readFrame bytes = some (frame, rest) ↔
      (bytes.head? = some 0x42 ∧ ∃ i, ListSearch.search Buffer.kCRLF bytes = some i ∧
        frame = .broadcast ((bytes.take i).drop broadcastTag.length) ∧ rest = bytes.drop (i + 2)) ∨
      ∃ first, bytes.head? = some first ∧ first ≠ 0x42 ∧
        ∃ reply, HttpResponse.readReply bytes = some (reply, rest) ∧ frame = .reply reply := by
  cases bytes with
  | nil => simp [readFrame]
  | cons first bytes =>
    unfold readFrame
    simp only [List.head?_cons, Option.some.injEq]
    by_cases hfirst : first = 0x42
    · simp [hfirst, eq_comm]
    · simp [hfirst, and_comm, eq_comm]

/-- The reader of the stream. -/
def frameReader : FrameReader Frame UInt8 where
  read := readFrame
  stable := by
    intro bytes frame rest h more
    rw [readFrame_eq_some_iff] at h ⊢
    obtain ⟨hfirst, i, hi, rfl, rfl⟩ | ⟨first, hfirst, hne, reply, hreply, rfl⟩ := h
    · have hle : i + 2 ≤ bytes.length := ListSearch.search_le hi
      refine .inl ⟨?_, i, ListSearch.search_append hi more, ?_, ?_⟩
      · rw [List.head?_append, hfirst, Option.some_or]
      · rw [List.take_append_of_le_length (by omega)]
      · rw [List.drop_append_of_le_length hle]
    · refine .inr ⟨first, ?_, hne, reply, HttpResponse.readReply_append hreply more, rfl⟩
      rw [List.head?_append, hfirst, Option.some_or]
  decreasing := by
    intro bytes frame rest h
    obtain ⟨-, i, hi, -, rfl⟩ | ⟨-, -, -, reply, hreply, -⟩ := readFrame_eq_some_iff.mp h
    · have hle : i + 2 ≤ bytes.length := ListSearch.search_le hi
      rw [List.length_drop]
      omega
    · exact HttpResponse.length_of_readReply hreply

/-- A broadcast is read back when its message contains no CRLF. It may end with a CR. -/
theorem readFrame_broadcastText {msg : Bytes}
    (h : ListSearch.search Buffer.kCRLF msg = none) :
    readFrame (broadcastText msg) = some (.broadcast msg, []) := by
  have htag : 0x0D ∉ broadcastTag := by decide
  have hsearch : ListSearch.search Buffer.kCRLF (broadcastText msg) =
      some (broadcastTag.length + msg.length) := by
    have hmsg := ListSearch.search_pair_append (by decide) h []
    rw [broadcastText, List.append_assoc]
    exact (ListSearch.search_append_left htag _).trans (congrArg _ hmsg)
  have hlength : (broadcastTag ++ msg).length = broadcastTag.length + msg.length :=
    List.length_append
  refine readFrame_eq_some_iff.mpr (.inl ⟨rfl, _, hsearch, ?_, ?_⟩)
  · rw [← hlength]
    show _ = Frame.broadcast (((broadcastTag ++ msg ++ text "\r\n").take _).drop _)
    rw [List.take_left, List.drop_left]
  · rw [← hlength]
    show _ = (broadcastTag ++ msg ++ text "\r\n").drop _
    rw [List.drop_append, List.drop_eq_nil_of_le (by omega), Nat.add_sub_cancel_left]
    rfl

theorem readFrame_of_readReply {buf rest : Bytes} {reply : HttpResponse.Reply}
    (hfirst : buf.head? = some 0x48) (h : HttpResponse.readReply buf = some (reply, rest)) :
    readFrame buf = some (.reply reply, rest) :=
  readFrame_eq_some_iff.mpr (.inr ⟨0x48, hfirst, by decide, reply, h, rfl⟩)

/-- What a string of the server says to a client. -/
inductive Says : Bytes → Frame → Prop
  | page : Says (sendHttpResponse "text/html; charset=utf-8" (text g_chat_html)) (.reply pageReply)
  | ok : Says (sendHttpResponse "text/plain" (text "OK")) (.reply okReply)
  | badRequest : Says badRequest (.reply ⟨400, true, [], []⟩)
  | broadcast (msg : Bytes) : Says (broadcastText msg) (.broadcast msg)

/-- What is said is read, and nothing is left over. -/
theorem Says.readFrame_eq {buf : Bytes} {frame : Frame} (h : Says buf frame)
    (hline : ∀ msg, frame = .broadcast msg → ListSearch.search Buffer.kCRLF msg = none) :
    readFrame buf = some (frame, []) := by
  cases h with
  | page => exact readFrame_of_readReply rfl readReply_page
  | ok => exact readFrame_of_readReply rfl readReply_ok
  | badRequest => exact readFrame_of_readReply rfl readReply_badRequest
  | broadcast msg => exact readFrame_broadcastText (hline msg rfl)

/-! ## What the server says -/

/-- An answer is one of the two responses, or the broadcast of its request. -/
theorem says_of_mem_answers {peer buf : Bytes} {requests : List Request}
    (h : buf ∈ answers peer requests) :
    ∃ frame, Says buf frame ∧ ∀ msg, frame = .broadcast msg →
      ∃ request ∈ requests, request.path = chatPath ∧
        msg = text "[" ++ peer ++ text "]: " ++ request.body := by
  obtain ⟨request, hrequest, hbuf⟩ := List.mem_flatMap.mp h
  unfold answer replyTo at hbuf
  split at hbuf
  · obtain rfl := List.mem_singleton.mp hbuf
    exact ⟨_, .page, fun msg hmsg => by cases hmsg⟩
  · split at hbuf
    · next hpath =>
      obtain rfl | hbuf := List.mem_cons.mp hbuf
      · refine ⟨_, .broadcast _, fun msg hmsg => ?_⟩
        exact ⟨request, hrequest, hpath, (Frame.broadcast.inj hmsg).symm⟩
      · obtain rfl := List.mem_singleton.mp hbuf
        exact ⟨_, .ok, fun msg hmsg => by cases hmsg⟩
    · cases hbuf

/-- What a client by itself is sent. -/
theorem says_of_mem_sent {peer buf : Bytes} {chunks : List Bytes}
    (h : buf ∈ (reference peer chunks).sent) :
    ∃ frame, Says buf frame ∧ ∀ msg, frame = .broadcast msg →
      ∃ request ∈ requestsIn chunks.flatten, request.path = chatPath ∧
        msg = text "[" ++ peer ++ text "]: " ++ request.body := by
  by_cases hm : MalformedIn chunks.flatten
  · obtain ⟨front, chunk, back, rfl, hfront, hchunk⟩ := hm.exists_read
    rw [reference, Client.sent_of_malformed peer hfront hchunk] at h
    obtain hanswer | hbad := List.mem_append.mp h
    · obtain ⟨frame, hsays, hmsg⟩ := says_of_mem_answers hanswer
      refine ⟨frame, hsays, fun msg hframe => ?_⟩
      obtain ⟨request, hrequest, hspoken⟩ := hmsg msg hframe
      rw [List.flatten_append]
      exact ⟨request, WebChatServer.requestsIn_subset _ _ hrequest, hspoken⟩
    · obtain rfl := List.mem_singleton.mp hbad
      exact ⟨_, .badRequest, fun msg hmsg => by cases hmsg⟩
  · rw [reference, Client.sent_of_not_malformed peer hm] at h
    exact says_of_mem_answers h

namespace WebChatServer

variable {κ ι : Type*} [DecidableEq κ] [LinearOrder ι] {s : WebChatServer κ ι}
  {r : Transcript κ ι} {x : ι}

omit [DecidableEq κ] in
/-- What is offered to a connection. Each broadcast is of a request that some connection has
    sent. -/
theorem Served.says (h : s.Served r x) {o : Offer} (ho : o ∈ r.offers x) :
    ∃ frame, Says o.buf frame ∧ ∀ msg, frame = .broadcast msg → ∃ y, s.Spoken r y msg := by
  cases hown : o.own with
  | true =>
    have hmem : o.buf ∈ r.own x := List.mem_map.mpr ⟨o, List.mem_filter.mpr ⟨ho, hown⟩, rfl⟩
    obtain ⟨frame, hsays, hmsg⟩ := says_of_mem_sent (h.own.subset hmem)
    exact ⟨frame, hsays, fun msg hframe => ⟨x, hmsg msg hframe⟩⟩
  | false =>
    obtain ⟨y, -, msg, hspoken, hbuf⟩ := h.foreign o ho hown
    rw [hbuf]
    refine ⟨_, .broadcast msg, fun msg' hframe => ⟨y, ?_⟩⟩
    rwa [← Frame.broadcast.inj hframe]

/-- **Clients read what was sent**: as long as no message to broadcast contains a CRLF, what a
    connection has got of its stream is read as responses and broadcasts, those that the server has
    sent it, in their order, whatever the pieces in which it comes. Nothing else can be taken for a
    broadcast, and when all has been written and has come, nothing is left over. -/
theorem clients_read {s₀ : WebChatServer κ ι} {ls : List (ℕ × ChatStep κ ι)} (h₀ : s₀.Opening)
    (hrun : Run Step s₀ ls s)
    (hline : ∀ y msg, s.Spoken (s₀.transcript ls) y msg →
      ListSearch.search Buffer.kCRLF msg = none) (x : ι) :
    ∃ frames, List.Forall₂ (fun o frame => Says o.buf frame)
        (((s₀.transcript ls).offers x).filter Offer.taken) frames ∧
      (∀ msg, .broadcast msg ∈ frames → ∃ y, s.Spoken (s₀.transcript ls) y msg) ∧
      ∀ pieces : List Bytes, pieces.flatten <+: written (s.conn x).trace →
        (pieces.foldl frameReader.consumer.feed ([], [])).1 <+: frames ∧
        (pieces.flatten = written (s.conn x).trace → (s.conn x).outputBuffer.readable = [] →
          pieces.foldl frameReader.consumer.feed ([], []) = (frames, [])) := by
  have h := (Transcribed.run h₀ hrun).conn x
  obtain ⟨frames, hframes⟩ := exists_forall₂
    (R := fun (o : Offer) frame => Says o.buf frame ∧
      ∀ msg, frame = Frame.broadcast msg → ∃ y, s.Spoken (s₀.transcript ls) y msg)
    (l := ((s₀.transcript ls).offers x).filter Offer.taken)
    fun o ho => h.says (List.mem_filter.mp ho).1
  have hread : List.Forall₂ (fun buf frame => frameReader.read buf = some (frame, []))
      ((((s₀.transcript ls).offers x).filter Offer.taken).map Offer.buf) frames := by
    refine List.forall₂_map_left_iff.mpr (hframes.imp fun o frame ho => ?_)
    refine ho.1.readFrame_eq fun msg hmsg => ?_
    obtain ⟨y, hspoken⟩ := ho.2 msg hmsg
    exact hline y msg hspoken
  have hstream : written (s.conn x).trace ++ (s.conn x).outputBuffer.readable =
      ((((s₀.transcript ls).offers x).filter Offer.taken).map Offer.buf).flatten :=
    h.stream.trans (List.flatMap_def ..)
  have hfeed : ∀ pieces : List Bytes, pieces.foldl frameReader.consumer.feed ([], []) =
      frameReader.consumer.drain [] pieces.flatten := by
    intro pieces
    refine (frameReader.consumer.foldl_feed pieces (x := ([], [])) ?_).trans ?_
    · rfl
    · rw [List.nil_append]
  refine ⟨frames, hframes.imp fun _ _ ho => ho.1, fun msg hmsg => ?_, fun pieces hpieces => ?_⟩
  · obtain ⟨o, -, ho⟩ := exists_of_mem_forall₂ hframes hmsg
    exact ho.2 msg rfl
  · rw [hfeed]
    refine ⟨?_, fun hall hempty => ?_⟩
    · refine FrameReader.prefix_of_drain hread [] (hpieces.trans ?_)
      rw [← hstream]
      exact List.prefix_append _ _
    · rw [hempty, List.append_nil] at hstream
      have hdrain := FrameReader.drain_flatten hread [] []
      rw [List.append_nil] at hdrain
      rw [hall, hstream, hdrain, FrameReader.drain_of_read_eq_none FrameReader.read_nil]
      rfl

/-- Two connections on one loop. -/
def pairRoom : WebChatServer Unit (Fin 2) where
  loop _ := ()
  peer x := [0x61 + UInt8.ofNat x]
  ptrLess _ a b := decide (a < b)
  conn _ := { connectionCallback := true, messageCallback := true, closeCallback := true }

theorem opening_pairRoom : pairRoom.Opening :=
  ⟨⟨fun _ => ⟨rfl, rfl, rfl, rfl⟩, rfl, rfl, fun _ => rfl, fun _ => rfl, fun _ => rfl, fun _ => rfl,
    fun _ _ => rfl, fun _ => rfl, fun _ => rfl, by decide, fun _ => rfl⟩, fun _ => rfl,
    fun _ => Buffer.readable_new _, fun _ => rfl⟩

/-- Both connections come up, and the first one says `hi`. -/
def pairRun : List (ℕ × ChatStep Unit (Fin 2)) :=
  [(1, .connectEstablished 0)] ++ List.replicate 4 (2, .perform () (.upTo 0)) ++
    [(3, .connectEstablished 1)] ++ List.replicate 4 (4, .perform () (.upTo 0)) ++
    [(5, .handleEvent 0 { epollin := true } (some (text
      "POST /chat HTTP/1.1\r\nContent-Length: 2\r\n\r\nhi")) (.upTo 0) (.upTo 0))] ++
    List.replicate 9 (6, .perform () (.upTo 1000))

theorem run_pairRun : Run Step pairRoom pairRun (pairRun.foldl exec pairRoom) :=
  Run.of_allowed (Q := Enabled) (by decide +kernel)

/-- The second connection reads what the first one has said, byte by byte. -/
theorem clients_read_pair :
    let s := pairRun.foldl exec pairRoom
    (pairRoom.transcript pairRun).offers 1 =
        [⟨false, true, broadcastText (text "[a]: hi")⟩] ∧
      ∃ frames, List.Forall₂ (fun o frame => Says o.buf frame)
          (((pairRoom.transcript pairRun).offers 1).filter Offer.taken) frames ∧
        ((Client.bytewise (written (s.conn 1).trace)).foldl frameReader.consumer.feed ([], [])) =
          (frames, []) := by
  refine ⟨by decide +kernel, ?_⟩
  have hspoken : ∀ y : Fin 2,
      ∀ request ∈ requestsIn ((pairRoom.transcript pairRun).reads y).flatten,
        ListSearch.search Buffer.kCRLF (text "[" ++ (pairRun.foldl exec pairRoom).peer y ++
          text "]: " ++ request.body) = none := by
    decide +kernel
  obtain ⟨frames, hframes, -, hread⟩ := clients_read opening_pairRoom run_pairRun
    (fun y msg ⟨request, hrequest, _, hmsg⟩ => hmsg ▸ hspoken y request hrequest) 1
  refine ⟨frames, hframes, (hread _ ?_).2 (Client.flatten_bytewise _) (by decide +kernel)⟩
  rw [Client.flatten_bytewise]

end WebChatServer

end AegisNet
