import CodexFold.Foundation.Traces
import CodexFold.Fskit.Frames

/- Calls over one connection (`Client` and the loop of `nativeFSKitConnection.serve`).

   A client holds its lock through a call: it writes a request, reads one frame and takes
   it for the answer. Afterwards it goes on only if the frame fitted the request; after
   anything else it closes the connection, because the rest of a frame would be taken for
   the next answer. A write may stop after any byte and a read sees what has arrived, so
   that time-outs, cancellations and crashes are runs like any other.

   What `dispatch` answers comes with the event, as does what a streamed read delivers, which
   is one frame too. `Client` asks for no capability, so that `serve` does not pass it
   descriptors or shared windows. -/
namespace CodexFold.Fskit
open Foundation List

def kindRequest : UInt8 := 1

def kindResponse : UInt8 := 2

def opHello : UInt8 := 1

def EACCES : Int32 := 13

def EINVAL : Int32 := 22

/-- This number and the next are those of macOS. -/
def ESTALE : Int32 := 70

def EPROTO : Int32 := 100

/-- Both ends of a connection and the bytes between them. `waiting` is the request that the
    call under way has written. The last three fields are the history: the requests in the
    order of their calls, those the server has taken with its answers, and the payloads that
    calls have returned, by the number of the call. -/
structure Link where
  connected : Bool
  nextID : UInt64
  waiting : Option Frame
  toServer : Bytes
  toClient : Bytes
  serving : Bool
  authenticated : Bool
  requests : List Frame
  answers : List (Frame × Frame)
  results : List (Nat × Bytes)

def Link.dialed : Link := ⟨true, 1, none, [], [], true, false, [], [], []⟩

inductive Event where
  /-- A call takes the lock and writes its request, or the first bytes of it. -/
  | send (op : UInt8) (generation : UInt64) (payload : Bytes) (maxPayload : UInt32) (written : Nat)
  /-- It reads what has arrived; it may have been cancelled. -/
  | receive (maxPayload : UInt32) (arrived : Nat) (canceled : Bool)
  | close
  /-- The server takes a request and writes its answer, or the first bytes of it. -/
  | serve (namespaceVersion : UInt64) (payload : Bytes) (status : Int32) (written : Nat)
  /-- The server ends the connection, for whatever reason. -/
  | stop

/-- The generations of the two sides, and the limit and the token of the server. -/
structure Setting where
  clientGeneration : UInt64
  serverGeneration : UInt64
  serverMaxPayload : UInt32
  token : Bytes

/-- What of a frame gets onto the connection, and whether all of it does. -/
def wrote (maxPayload : UInt32) (f : Frame) (written : Nat) : Bytes × Bool :=
  match writeFrame maxPayload f with
  | .error _ => ([], false)
  | .ok data => (data.take written, data.length ≤ written)

def truncated (_ : Bytes) : String := "truncated FSKit protocol payload"

/-- `Decoder.Bytes`. -/
def decodeBytes (limit : Nat) : Parser Bytes := do
  let length := fromLittleEndian (← Parser.next truncated 4)
  Parser.check (length > limit) s!"FSKit protocol byte field {length} exceeds limit {limit}"
  Parser.next truncated length

/-- The payload and the status of the answer. Behind the token there may be capabilities. -/
def hello (c : Setting) (namespaceVersion : UInt64) (payload : Bytes) : Bytes × Int32 :=
  let welcome := Encoder.uint32 c.serverMaxPayload ++ Encoder.uint64 namespaceVersion
  match decodeBytes 256 payload with
  | .error _ => ([], EACCES)
  | .ok (token, rest) =>
    if token ≠ c.token then ([], EACCES)
    else if rest = [] then (welcome, 0)
    else if rest.length ≠ 4 then ([], EINVAL)
    else
      let contentGeneration := UInt32.ofNat (fromLittleEndian rest) &&& 16
      (welcome ++ if contentGeneration ≠ 0 then Encoder.uint32 contentGeneration else [], 0)

namespace Link
variable (c : Setting) (s : Link)

def send (op : UInt8) (generation : UInt64) (payload : Bytes) (maxPayload : UInt32) (written : Nat) : Link :=
  let request : Frame := ⟨kindRequest, op, 0, s.nextID, generation, 0, payload⟩
  let out := wrote maxPayload request written
  { s with
    connected := out.2, nextID := s.nextID + 1, waiting := if out.2 then some request else none
    toServer := s.toServer ++ out.1, requests := s.requests ++ [request] }

def receive (request : Frame) (maxPayload : UInt32) (arrived : Nat) (canceled : Bool) : Link :=
  match readFrame maxPayload (s.toClient.take arrived) with
  | .error _ => { s with connected := false, waiting := none }
  | .ok (response, rest) =>
    let s := { s with waiting := none, toClient := rest ++ s.toClient.drop arrived }
    if canceled ∨ response.kind ≠ kindResponse ∨ response.op ≠ request.op ∨ response.requestID ≠ request.requestID ∨
        response.generation ≠ c.clientGeneration then { s with connected := false }
    else if response.status ≠ 0 then s
    else { s with results := s.results ++ [(s.requests.length - 1, response.payload)] }

/-- The answer to a request, and whether the connection is authenticated after it. -/
def respond (request : Frame) (namespaceVersion : UInt64) (payload : Bytes) (status : Int32) : Frame × Bool :=
  let response : Frame := ⟨kindResponse, request.op, 0, request.requestID, c.serverGeneration, 0, []⟩
  if request.kind ≠ kindRequest then ({ response with status := EPROTO }, s.authenticated)
  else if !s.authenticated then
    if request.op ≠ opHello then ({ response with status := EACCES }, false)
    else
      let (payload, status) := hello c namespaceVersion request.payload
      ({ response with payload := payload, status := status }, status == 0)
  else if request.generation ≠ c.serverGeneration then ({ response with status := ESTALE }, true)
  else ({ response with payload := payload, status := status }, true)

/-- One turn of `serve`. Without a whole frame it waits. -/
def serve (namespaceVersion : UInt64) (payload : Bytes) (status : Int32) (written : Nat) : Option Link :=
  match readFrame c.serverMaxPayload s.toServer with
  | .error _ => none
  | .ok (request, rest) =>
    let answer := s.respond c request namespaceVersion payload status
    let out := wrote c.serverMaxPayload answer.1 written
    some { s with
      toServer := rest, toClient := s.toClient ++ out.1, authenticated := answer.2
      serving := out.2 && answer.2 && answer.1.status != ESTALE, answers := s.answers ++ [(request, answer.1)] }

def step (s : Link) : Event → Option Link
  | .send op generation payload maxPayload written =>
    if s.connected ∧ s.waiting = none then some (s.send op generation payload maxPayload written) else none
  | .receive maxPayload arrived canceled =>
    match s.waiting with
    | none => none
    | some request => if s.connected then some (s.receive c request maxPayload arrived canceled) else none
  | .close => if s.waiting = none then some { s with connected := false } else none
  | .serve namespaceVersion payload status written =>
    if s.serving then s.serve c namespaceVersion payload status written else none
  | .stop => some { s with serving := false }

/-- The requests the server has taken. -/
def taken : List Frame := s.answers.map Prod.fst

end Link

/-- The first bytes of a frame, of which some are there only if it could be written. -/
def Frame.Begins (f : Frame) (data : Bytes) : Prop := data <+: f.bytes ∧ (data ≠ [] → f.payload.length < 2 ^ 32)

theorem wrote_begins (maxPayload : UInt32) (f : Frame) (written : Nat) : f.Begins (wrote maxPayload f written).1 := by
  unfold wrote
  split
  · exact ⟨ nil_prefix, absurd rfl⟩
  · next hwrite =>
    obtain ⟨hlimit, hdata⟩ := of_guard hwrite
    cases hdata
    have hlt := payloadLimit_lt maxPayload
    exact ⟨ take_prefix .., fun _ => by omega⟩

theorem Frame.Begins.read {f g : Frame} {data rest : Bytes} {maxPayload : UInt32} (h : f.Begins data) (n : Nat)
    (hread : readFrame maxPayload (data.take n) = .ok (g, rest)) : g = f ∧ rest = [] ∧ data.drop n = [] := by
  have hne : data ≠ [] := by
    rintro rfl
    rw [take_nil] at hread
    exact readFrame_nil _ hread
  obtain ⟨rfl, hall, rfl⟩ := readFrame_cut (h.2 hne) (( take_prefix ..).trans h.1) hread
  have hle := h.1.length_le
  rw [← hall, length_take] at hle
  exact ⟨rfl, rfl, drop_eq_nil_iff.mpr (by omega)⟩

/-- Between the two sides there is one request that has not been taken, or one answer that
    has not been read, or nothing. -/
structure Link.Matched (s : Link) : Prop where
  order : (s.taken = s.requests ∧ s.toServer = []) ∨ ∃ request, s.requests = s.taken ++ [request] ∧ request.Begins s.toServer
  idle : s.connected → s.waiting = none → s.taken = s.requests ∧ s.toClient = []
  awaited : s.connected → s.waiting ≠ none → (s.taken ≠ s.requests ∧ s.toClient = []) ∨
    (s.taken = s.requests ∧ ∃ answer, s.answers.getLast? = some answer ∧ answer.2.Begins s.toClient)
  results : ∀ i payload, (i, payload) ∈ s.results →
    ∃ request response, s.answers[i]? = some (request, response) ∧ response.status = 0 ∧ response.payload = payload

namespace Link.Matched
variable {c : Setting} {s t : Link} (h : s.Matched)
include h

theorem closed (waiting : Option Frame) : Matched { s with connected := false, waiting := waiting } :=
  ⟨h.order, fun hc => absurd hc Bool.false_ne_true, fun hc => absurd hc Bool.false_ne_true, h.results⟩

theorem send (hconnected : s.connected) (hwaiting : s.waiting = none) (op : UInt8) (generation : UInt64) (payload : Bytes)
    (maxPayload : UInt32) (written : Nat) : (s.send op generation payload maxPayload written).Matched := by
  obtain ⟨htaken, hclient⟩ := h.idle hconnected hwaiting
  have hserver : s.toServer = [] := by
    rcases h.order with ⟨-, hserver⟩ | ⟨request, hrequests, -⟩
    · exact hserver
    · simp [htaken] at hrequests
  refine ⟨.inr ⟨_, congrArg (· ++ _) htaken.symm, ?_⟩, fun hc hw => ?_, fun _ _ => .inl ⟨?_, hclient⟩, h.results⟩
  · simp only [Link.send, hserver, nil_append]
    exact wrote_begins ..
  · simp only [Link.send] at hc hw
    simp [hc] at hw
  · show s.taken ≠ s.requests ++ _
    simp [htaken]

theorem receive (hconnected : s.connected) {request : Frame} (hwaiting : s.waiting = some request) (maxPayload : UInt32)
    (arrived : Nat) (canceled : Bool) : (s.receive c request maxPayload arrived canceled).Matched := by
  unfold Link.receive
  split
  · exact h.closed _
  · next response rest hread =>
    rcases h.awaited hconnected (by simp [hwaiting]) with ⟨-, hclient⟩ | ⟨htaken, answer, hlast, hbegins⟩
    · rw [hclient, take_nil] at hread
      exact absurd hread (readFrame_nil _)
    -- it was the answer that was read, and nothing is left of it
    obtain ⟨rfl, rfl, hrest⟩ := hbegins.read arrived hread
    have hmatched : Matched { s with waiting := none, toClient := [] ++ s.toClient.drop arrived } :=
      ⟨h.order, fun _ _ => ⟨htaken, hrest⟩, fun _ => absurd rfl, h.results⟩
    split
    · exact hmatched.closed _
    · split
      · exact hmatched
      · next hstatus =>
        refine ⟨hmatched.order, hmatched.idle, hmatched.awaited, fun i payload hmem => ?_⟩
        rcases mem_append.mp hmem with hmem | hmem
        · exact h.results i payload hmem
        · cases mem_singleton.mp hmem
          refine ⟨answer.1, answer.2, ?_, not_not.mp hstatus, rfl⟩
          show s.answers[s.requests.length - 1]? = _
          rw [← htaken, taken, length_map, ← getLast?_eq_getElem?]
          exact hlast

theorem serve {namespaceVersion : UInt64} {payload : Bytes} {status : Int32} {written : Nat}
    (hs : s.serve c namespaceVersion payload status written = some t) : t.Matched := by
  unfold Link.serve at hs
  split at hs
  · cases hs
  · next request rest hread =>
    cases hs
    rcases h.order with ⟨-, hserver⟩ | ⟨sent, hrequests, hbegins⟩
    · rw [hserver] at hread
      exact absurd hread (readFrame_nil _)
    rw [← take_length (l := s.toServer)] at hread
    obtain ⟨rfl, rfl, -⟩ := hbegins.read _ hread
    have hbefore : s.taken ≠ s.requests := by simp [hrequests]
    have hafter : ∀ response, (s.answers ++ [(request, response)]).map Prod.fst = s.requests := by
      intro response
      rw [hrequests, map_append]
      rfl
    refine ⟨.inl ⟨hafter _, rfl⟩, fun hc hw => absurd (h.idle hc hw).1 hbefore, fun hc hw => .inr ⟨hafter _, ?_⟩, ?_⟩
    · rcases h.awaited hc hw with ⟨-, hclient⟩ | ⟨heq, -⟩
      · refine ⟨_, getLast?_concat, ?_⟩
        simp only [hclient, nil_append]
        exact wrote_begins ..
      · exact absurd heq hbefore
    · intro i payload hmem
      obtain ⟨request, response, hget, hrest⟩ := h.results i payload hmem
      exact ⟨request, response, (getElem?_append_left (List.getElem?_eq_some_iff.mp hget).1).trans hget, hrest⟩

end Link.Matched

/-! ## What is let through -/

/-- The request is a hello with the token of the server. -/
def Setting.Opens (c : Setting) (request : Frame) : Prop :=
  request.op = opHello ∧
    ∃ rest, request.payload = Encoder.uint32 (UInt32.ofNat c.token.length) ++ c.token ++ rest

theorem opens_of_hello {c : Setting} {request : Frame} {namespaceVersion : UInt64} (hop : request.op = opHello)
    (h : (hello c namespaceVersion request.payload).2 = 0) : c.Opens request := by
  refine ⟨hop, ?_⟩
  unfold hello at h
  split at h
  · cases h
  · next token rest hdecode =>
    split at h
    · cases h
    next htoken =>
    obtain rfl : token = c.token := not_not.mp htoken
    unfold decodeBytes at hdecode
    simp only [Parser.bind_eq_ok, Parser.check_eq_ok, Parser.next_eq_ok] at hdecode
    obtain ⟨length, _, ⟨hfour, hpayload⟩, _, _, ⟨-, rfl⟩, hlength, rfl⟩ := hdecode
    have hnumber : Encoder.uint32 (UInt32.ofNat c.token.length) = length := by
      have hlt := fromLittleEndian_lt length
      rw [hfour] at hlt
      rw [Encoder.uint32, hlength, UInt32.toNat_ofNat_of_lt' hlt, ← hfour]
      exact littleEndian_fromLittleEndian length
    exact ⟨rest, by rw [hnumber, hpayload, append_assoc]⟩

/-- Only a hello with the token opens a connection, and what is answered well after it carries the
    generation of the server. -/
structure Link.Admitted (c : Setting) (s : Link) : Prop where
  known : s.serving → s.answers ≠ [] → s.authenticated
  welcomed : s.authenticated ∨ 1 < s.answers.length → ∃ first, s.answers[0]? = some first ∧ c.Opens first.1
  admitted : ∀ (i : Nat) answer, s.answers[i]? = some answer → answer.2.status = 0 →
    (i = 0 ∧ c.Opens answer.1) ∨ answer.1.generation = c.serverGeneration

theorem Link.respond_spec (c : Setting) (s : Link) (request : Frame) (namespaceVersion : UInt64) (payload : Bytes)
    (status : Int32) :
    ((s.respond c request namespaceVersion payload status).1.status = 0 →
      (s.authenticated = false ∧ c.Opens request) ∨ request.generation = c.serverGeneration) ∧
    ((s.respond c request namespaceVersion payload status).2 → s.authenticated ∨ c.Opens request) := by
  unfold Link.respond
  split_ifs with hkind hnew hop hgeneration
  · exact ⟨by simp [EPROTO], .inl⟩
  · simp [EACCES]
  · have hopens : (hello c namespaceVersion request.payload).2 = 0 → c.Opens request := opens_of_hello (not_not.mp hop)
    exact ⟨fun h => .inl ⟨by simpa using hnew, hopens h⟩, fun h => .inr (hopens (by simpa using h))⟩
  · exact ⟨by simp [ESTALE], fun _ => .inl (by simpa using hnew)⟩
  · exact ⟨fun _ => .inr (not_not.mp hgeneration), fun _ => .inl (by simpa using hnew)⟩

theorem Link.Admitted.serve {c : Setting} {s t : Link} (h : s.Admitted c) (hserving : s.serving)
    {namespaceVersion : UInt64} {payload : Bytes} {status : Int32} {written : Nat}
    (hs : s.serve c namespaceVersion payload status written = some t) : t.Admitted c := by
  unfold Link.serve at hs
  split at hs
  · cases hs
  next request rest hread =>
  cases hs
  obtain ⟨hstatus, hopened⟩ := respond_spec c s request namespaceVersion payload status
  refine ⟨fun hserves _ => ?_, fun hopen => ?_, fun i answer hget hzero => ?_⟩
  · simp only [Bool.and_eq_true] at hserves
    exact hserves.1.2
  · cases hanswers : s.answers with
    | nil =>
      -- the first answer
      have hauth : s.authenticated = false := by
        rw [Bool.eq_false_iff]
        intro hauth
        obtain ⟨hello, hget, -⟩ := h.welcomed (.inl hauth)
        simp [hanswers] at hget
      simp only [hanswers, nil_append, length_singleton, Nat.lt_irrefl, or_false] at hopen
      simpa [hauth] using hopened hopen
    | cons first later =>
      obtain ⟨hello, hget, hhello⟩ := h.welcomed (.inl (h.known hserving (by simp [hanswers])))
      exact ⟨hello, by simpa [hanswers] using hget, hhello⟩
  · rcases Nat.lt_or_ge i s.answers.length with hi | hi
    · simp only [getElem?_append_left hi] at hget
      exact h.admitted i answer hget hzero
    · simp only [getElem?_append_right hi, getElem?_singleton] at hget
      split at hget
      · next hlast =>
        cases hget
        rcases hstatus hzero with ⟨hauth, hop⟩ | hgeneration
        · refine .inl ⟨?_, hop⟩
          have hempty : s.answers = [] := not_not.mp fun hne => by simp [h.known hserving hne] at hauth
          simp only [hempty, length_nil, Nat.sub_zero] at hlast
          exact hlast
        · exact .inr hgeneration
      · cases hget

/-! ## Runs -/

section
variable {c : Setting} {s t : Link}

theorem Link.Admitted.of_eq (h : s.Admitted c) (hserving : t.serving → s.serving) (hknown : t.authenticated = s.authenticated)
    (hanswers : t.answers = s.answers) : t.Admitted c := by
  refine ⟨fun hserves hne => hknown ▸ h.known (hserving hserves) (hanswers ▸ hne), ?_, hanswers ▸ h.admitted⟩
  rw [hknown, hanswers]
  exact h.welcomed

theorem Link.step_kept (h : s.Matched ∧ s.Admitted c) {event : Event} (hs : s.step c event = some t) :
    t.Matched ∧ t.Admitted c := by
  obtain ⟨hmatched, hadmitted⟩ := h
  cases event with
  | send op generation payload maxPayload written =>
    obtain ⟨⟨hconnected, hwaiting⟩, rfl⟩ := guard_eq_some.mp hs
    exact ⟨hmatched.send hconnected hwaiting .., hadmitted.of_eq id rfl rfl⟩
  | receive maxPayload arrived canceled =>
    simp only [Link.step] at hs
    cases hwaiting : s.waiting with
    | none => simp [hwaiting] at hs
    | some request =>
      simp only [hwaiting] at hs
      obtain ⟨hconnected, rfl⟩ := guard_eq_some.mp hs
      refine ⟨hmatched.receive hconnected hwaiting .., ?_⟩
      unfold Link.receive
      split
      · exact hadmitted.of_eq id rfl rfl
      · split_ifs <;> exact hadmitted.of_eq id rfl rfl
  | close =>
    obtain ⟨-, rfl⟩ := guard_eq_some.mp hs
    exact ⟨hmatched.closed _, hadmitted.of_eq id rfl rfl⟩
  | serve namespaceVersion payload status written =>
    obtain ⟨hserving, hs⟩ := (Option.ite_none_right_eq_some).mp hs
    exact ⟨hmatched.serve hs, hadmitted.serve hserving hs⟩
  | stop =>
    cases hs
    exact ⟨⟨hmatched.order, hmatched.idle, hmatched.awaited, hmatched.results⟩,
      hadmitted.of_eq (fun hserves => absurd hserves Bool.false_ne_true) rfl rfl⟩

theorem Link.run_kept {events : List Event} (h : runFrom (Link.step c) .dialed events = some s) : s.Matched ∧ s.Admitted c :=
  Along.invariant (C := fun _ _ => True) (fun _ _ _ hi _ hs => step_kept hi hs) events
    ⟨⟨.inl ⟨rfl, rfl⟩, fun _ _ => ⟨rfl, rfl⟩, fun _ => absurd rfl, by simp [Link.dialed]⟩,
      ⟨fun _ => absurd rfl, by simp [Link.dialed], by simp [Link.dialed]⟩⟩ (.of_forall _ fun _ _ _ => trivial) h

end

/-- In every run over one connection, with whatever is cut short, the server takes the requests
    in the order of the calls and none twice, and a call that returns a payload returns the one
    the server answered that very request with. -/
theorem calls_matched (c : Setting) (events : List Event) (s : Link) (h : runFrom (Link.step c) .dialed events = some s) :
    s.answers.map Prod.fst <+: s.requests ∧ ∀ i payload, (i, payload) ∈ s.results →
      ∃ request response, s.requests[i]? = some request ∧ s.answers[i]? = some (request, response) ∧
        response.status = 0 ∧ response.payload = payload := by
  have hmatched := (Link.run_kept h).1
  have horder : s.answers.map Prod.fst <+: s.requests := by
    rcases hmatched.order with ⟨htaken, -⟩ | ⟨request, hrequests, -⟩
    · exact htaken ▸ prefix_rfl
    · exact hrequests ▸ prefix_append ..
  refine ⟨horder, fun i payload hmem => ?_⟩
  obtain ⟨request, response, hget, hrest⟩ := hmatched.results i payload hmem
  refine ⟨request, response, ?_, hget, hrest⟩
  obtain ⟨later, hlater⟩ := horder
  have hfirst : (s.answers.map Prod.fst)[i]? = some request := by rw [getElem?_map, hget]; rfl
  rw [← hlater]
  exact (getElem?_append_left (List.getElem?_eq_some_iff.mp hfirst).1).trans hfirst

def tokenSetting : Setting := ⟨9, 9, 8192, [0, 1, 2, 3, 4, 5, 6, 7, 8, 9, 10, 11, 12, 13, 14, 15]⟩

/-- A hello with the token, a call that is answered, and one that breaks off while it writes
    its request. -/
def threeCalls : List Event :=
  [.send opHello 9 ([16, 0, 0, 0] ++ tokenSetting.token) 0 60, .serve 1 [] 0 52, .receive 0 52 false,
    .send 5 9 [7] 8192 41, .serve 1 [3, 4] 0 42, .receive 8192 42 false, .send 5 9 [8] 8192 3]

def afterThreeCalls : Link :=
  let first : Frame := ⟨1, 1, 0, 1, 9, 0, [16, 0, 0, 0] ++ tokenSetting.token⟩
  let second : Frame := ⟨1, 5, 0, 2, 9, 0, [7]⟩
  let welcome : Bytes := [0, 32, 0, 0, 1, 0, 0, 0, 0, 0, 0, 0]
  ⟨false, 4, none, [67, 70, 83], [], true, true, [first, second, ⟨1, 5, 0, 3, 9, 0, [8]⟩],
    [(first, ⟨2, 1, 0, 1, 9, 0, welcome⟩), (second, ⟨2, 5, 0, 2, 9, 0, [3, 4]⟩)], [(0, welcome), (1, [3, 4])]⟩

theorem calls_matched_threeCalls : runFrom (Link.step tokenSetting) .dialed threeCalls = some afterThreeCalls ∧
    ∃ request response, afterThreeCalls.requests[1]? = some request ∧
      afterThreeCalls.answers[1]? = some (request, response) ∧ response.status = 0 ∧ response.payload = [3, 4] :=
  ⟨rfl, (calls_matched tokenSetting threeCalls afterThreeCalls rfl).2 1 _ (.tail _ (.head _))⟩

/-- In every run the server answers a second request only after a hello with its token, and no
    request with success but such a hello and requests of its own generation. -/
theorem answered_with_token (c : Setting) (events : List Event) (s : Link)
    (h : runFrom (Link.step c) .dialed events = some s) :
    (1 < s.answers.length → ∃ first, s.answers[0]? = some first ∧ c.Opens first.1) ∧
      ∀ (i : Nat) answer, s.answers[i]? = some answer → answer.2.status = 0 →
        (i = 0 ∧ c.Opens answer.1) ∨ answer.1.generation = c.serverGeneration := by
  have hadmitted := (Link.run_kept h).2
  exact ⟨fun hmany => hadmitted.welcomed (.inr hmany), hadmitted.admitted⟩

theorem answered_with_token_threeCalls : runFrom (Link.step tokenSetting) .dialed threeCalls = some afterThreeCalls ∧
    (∃ first, afterThreeCalls.answers[0]? = some first ∧ tokenSetting.Opens first.1) ∧
      ∀ (i : Nat) answer, afterThreeCalls.answers[i]? = some answer → answer.2.status = 0 →
        (i = 0 ∧ tokenSetting.Opens answer.1) ∨ answer.1.generation = 9 :=
  have h := answered_with_token tokenSetting threeCalls afterThreeCalls rfl
  ⟨rfl, h.1 (by decide), h.2⟩

end CodexFold.Fskit
