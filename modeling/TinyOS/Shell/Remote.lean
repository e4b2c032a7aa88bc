import TinyOS.Args.Pack
import TinyOS.Lib.System

/-!
# The remote shell (`tinyos_shell.c`)

`RemoteClient` sends its arguments to the server as one message, an `int` and that many bytes, and
the server thread `rsrv_client` reads the message and executes it. Each side has a loop that goes on
until its buffer is through, whatever the connection takes or gives at a time: at least one byte.

What the server is at depends only on the bytes that it has received, and not on how they came
(`Has.got`). So it decodes the arguments of the client, and executes nothing if the stream ends
early, as long as the message is one that it accepts. **The client sends messages of any length, and
the server asserts that they have at most 2048 bytes** (`remote_agrees_iff`).
-/

set_option autoImplicit false

namespace TinyOS

open Words Terminated Transition

/-! ## The message -/

/-- An `int` in memory. -/
def intBytes (n : Int) : List UInt8 := toBytes 4 (n % 2 ^ 32).toNat

def intOf (bytes : List UInt8) : Int := int32 (ofBytes bytes)

@[simp] theorem length_intBytes (n : Int) : (intBytes n).length = 4 := by simp [intBytes]

theorem intOf_intBytes {n : Nat} (h : n < 2 ^ 31) : intOf (intBytes n) = n := by
  have hn : ((n : Int) % 2 ^ 32).toNat = n := by omega
  have hlt : n % 256 ^ 4 = n := Nat.mod_eq_of_lt (by omega)
  rw [intOf, intBytes, hn, ofBytes_toBytes, hlt, int32_of_lt (by omega) (by omega)]

/-- The message of `RemoteClient`, where `argv` is its argument vector without the name of the
program: `argl`, and the bytes of `args`. -/
def clientMessage (argv : List CString) : Option (Int × List UInt8) :=
  let argl := int32 (argvlen argv)
  if argl < 0 then none
  else (argvpack (List.replicate argl.toNat 0) argv).map fun x => (argl, x.2)

theorem clientMessage_eq {argv : List CString} (h : (pack argv).length < 2 ^ 31) :
    clientMessage argv = some (((pack argv).length : Int), pack argv) := by
  have hlen : int32 (argvlen argv) = (pack argv).length := by
    rw [argvlen_eq, Nat.mod_eq_of_lt (h.trans (by decide)), int32_of_lt (by omega) (by omega)]
  have hfit : (pack argv).length ≤ (List.replicate (pack argv).length (0 : UInt8)).length := by simp
  have hpos : ¬ ((pack argv).length : Int) < 0 := by omega
  simp only [clientMessage, hlen, hpos, if_false, Int.toNat_natCast, argvpack_eq hfit,
    Option.map_some, List.drop_replicate, Nat.sub_self, List.replicate_zero, List.append_nil]

/-- A length that does not fit an `int` leaves too small a buffer. -/
theorem clientMessage_none {argv : List CString} (h : 2 ^ 31 ≤ (pack argv).length) :
    clientMessage argv = none := by
  have hlt := int32_lt (argvlen argv)
  by_cases hneg : int32 (argvlen argv) < 0
  · simp only [clientMessage, hneg, if_true]
  · have hroom : (List.replicate (int32 (argvlen argv)).toNat (0 : UInt8)).length <
        (pack argv).length := by
      rw [List.length_replicate]
      omega
    simp only [clientMessage, hneg, if_false, argvpack_none hroom, Option.map_none]

/-! ## The client -/

inductive ClientPc where
  | connected
  /-- In `send_message`, with `count`: of the length, and then of the arguments. -/
  | header (argl : Int) (args : List UInt8) (count : Nat)
  | body (args : List UInt8) (count : Nat)
  | written
  /-- After `ShutDown(sock, SHUTDOWN_WRITE)`. -/
  | shutDown
  /-- A `Write` failed, and the client exits. -/
  | failed
  /-- Undefined behaviour. -/
  | fault

namespace ClientPc

def make (argv : List CString) : ClientPc :=
  (clientMessage argv).elim .fault fun x => .header x.1 x.2 0

/-- The bytes that the next `Write` offers. -/
def rest : ClientPc → List UInt8
  | .header argl _ count => (intBytes argl).drop count
  | .body args count => args.drop count
  | _ => []

/-- The client will write no more. -/
def ended : ClientPc → Bool
  | .shutDown | .failed => true
  | _ => false

/-- A `Write` took `k` bytes. -/
def wrote : ClientPc → Nat → ClientPc
  | .header argl args count, k =>
    if count + k < 4 then .header argl args (count + k)
    else if 0 < args.length then .body args 0
    else .written
  | .body args count, k => if count + k < args.length then .body args (count + k) else .written
  | pc, _ => pc

end ClientPc

/-! ## The server -/

inductive ServerPc where
  /-- In `recv_message`, with what is in the buffer so far. -/
  | header (buf : List UInt8)
  | body (argl : Int) (buf : List UInt8)
  /-- `Execute(rsrv_process, argc+2, argv)`. -/
  | executed (argv : List CString)
  /-- `recv_message` returned 0. -/
  | aborted
  | assertFailed
  /-- Undefined behaviour. -/
  | fault

/-- `sprintf(sock_value, "%d", sock)`. -/
def decimal (sock : Nat) : CString :=
  ⟨(Nat.toDigits 10 sock).map fun c => UInt8.ofNat c.toNat, fun h => by
    obtain ⟨c, hc, he⟩ := List.mem_map.mp h
    have hd := Nat.isDigit_of_mem_toDigits (by decide) (by decide) hc
    simp only [Char.isDigit, Bool.and_eq_true, decide_eq_true_eq] at hd
    obtain ⟨h₀, h₉⟩ := hd
    have h₀ : 48 ≤ c.toNat := h₀
    have h₉ : c.toNat ≤ 57 := h₉
    have hn : (UInt8.ofNat c.toNat).toNat = 0 := by rw [he]; rfl
    have hm : (UInt8.ofNat c.toNat).toNat = c.toNat % 256 := UInt8.toNat_ofNat
    omega⟩

/-- The argument vector that the server executes. -/
def rsrvArgs (sock : Nat) (argv : List CString) : List CString :=
  cstring "rsrv_process" (by decide) :: decimal sock :: argv

namespace ServerPc

/-- The size of the next `Read`. -/
def asks : ServerPc → Nat
  | .header buf => 4 - buf.length
  | .body argl buf => argl.toNat - buf.length
  | _ => 0

/-- `rsrv_client` once it has the message; pointers are relative to `args`. -/
def serve (sock : Nat) (argl : Int) (args : List UInt8) : ServerPc :=
  match (argscount argl args).bind fun argc =>
    (argvunpack argc (List.replicate argc 0) 0 args).bind fun x => x.1.mapM (stringAt 0 args) with
  | none => .fault
  | some argv => .executed (rsrvArgs sock argv)

/-- A `Read` gave `chunk`. -/
def got (sock : Nat) : ServerPc → List UInt8 → ServerPc
  | .header buf, chunk =>
    let buf := buf ++ chunk
    if buf.length < 4 then .header buf
    else
      let argl := intOf buf
      if 0 < argl ∧ argl ≤ 2048 then .body argl [] else .assertFailed
  | .body argl buf, chunk =>
    let buf := buf ++ chunk
    if buf.length < argl.toNat then .body argl buf else serve sock argl buf
  | pc, _ => pc

end ServerPc

/-! ## The connection -/

structure Remote where
  client : ClientPc
  /-- The bytes on their way to the server. -/
  channel : List UInt8
  /-- The client sends no more. -/
  closed : Bool
  server : ServerPc
  /-- History: a `Read` of the server failed. -/
  readFailed : Bool

inductive RemoteAction where
  /-- The client makes up the message. -/
  | make
  | write (k : Nat)
  | writeFails
  | shutDown
  | read (k : Nat)
  /-- A `Read` at the end of the stream. -/
  | readEnd
  | readFails

/-- No action of the connection that ends it early. -/
def RemoteAction.regular : RemoteAction → Bool
  | .writeFails | .readFails => false
  | _ => true

namespace Remote

def perform (sock : Nat) (argv : List CString) (s : Remote) : RemoteAction → Option Remote
  | .make =>
    match s.client with
    | .connected => some { s with client := .make argv }
    | _ => none
  | .write k =>
    if 1 ≤ k ∧ k ≤ s.client.rest.length then
      some { s with client := s.client.wrote k, channel := s.channel ++ s.client.rest.take k }
    else none
  | .writeFails =>
    if s.client.rest = [] then none else some { s with client := .failed, closed := true }
  | .shutDown =>
    match s.client with
    | .written => some { s with client := .shutDown, closed := true }
    | _ => none
  | .read k =>
    if 1 ≤ k ∧ k ≤ s.server.asks ∧ k ≤ s.channel.length then
      some { s with
        server := s.server.got sock (s.channel.take k)
        channel := s.channel.drop k }
    else none
  | .readEnd =>
    if 0 < s.server.asks ∧ s.channel = [] ∧ s.closed then some { s with server := .aborted }
    else none
  | .readFails =>
    if 0 < s.server.asks then some { s with server := .aborted, readFailed := true } else none

def initial : Remote where
  client := .connected
  channel := []
  closed := false
  server := .header []
  readFailed := false

end Remote

/-- The server thread of the socket `sock`, and a client with the arguments `argv`. -/
def remoteSys (sock : Nat) (argv : List CString) : Sys Remote RemoteAction where
  init s := s = Remote.initial
  step := Remote.perform sock argv

/-- The server executes what the client was given, or nothing, and no assertion fails. -/
structure Remote.Delivers (sock : Nat) (argv : List CString) (s : Remote) : Prop where
  asserted : s.server ≠ .assertFailed
  defined : s.client ≠ .fault ∧ s.server ≠ .fault
  decoded : ∀ a, s.server = .executed a → a = rsrvArgs sock argv
  /-- If the stream ends early, nothing is executed. -/
  early : s.client = .failed ∨ s.readFailed = true → ∀ a, s.server ≠ .executed a
  /-- And the server gives up only then. -/
  complete : s.server = .aborted → s.client = .failed ∨ s.readFailed = true
  /-- As long as the server reads, the connection can go on. -/
  progress : 0 < s.server.asks →
    ∃ a s', a.regular = true ∧ s.perform sock argv a = some s'

/-- The server runs what the client was given, in every run. (`checkargs(1)` accepts the vectors that
are not empty.) -/
def RemoteAgrees (sock : Nat) (argv : List CString) : Prop :=
  argv ≠ [] → ∀ s, (remoteSys sock argv).Reach s → s.Delivers sock argv

/-! ## What has been sent and received -/

/-- The bytes of the message. -/
def message (argv : List CString) : List UInt8 := intBytes (pack argv).length ++ pack argv

/-- What the client has not written yet. -/
def ClientPc.Left (argv : List CString) : ClientPc → List UInt8 → Prop
  | .connected, l => l = message argv
  | .header argl args count, l => argl = (pack argv).length ∧ args = pack argv ∧ count < 4 ∧
      l = (intBytes argl).drop count ++ args
  | .body args count, l => count < args.length ∧ l = args.drop count
  | .written, l | .shutDown, l => l = []
  | .failed, l => l ≠ []
  | .fault, _ => False

/-- What the server is at when it has received the bytes `l`. -/
def ServerPc.Has (sock : Nat) (argv : List CString) : ServerPc → List UInt8 → Prop
  | .header buf, l => l = buf ∧ buf.length < 4
  | .body argl buf, l => argl = (pack argv).length ∧ buf.length < (pack argv).length ∧
      l = intBytes (pack argv).length ++ buf
  | .executed a, l => a = rsrvArgs sock argv ∧ l = message argv
  | .aborted, _ => True
  | .assertFailed, _ | .fault, _ => False

section

variable {sock : Nat} {argv : List CString} {l chunk : List UInt8} {k : Nat}

theorem ClientPc.make_eq (hlt : (pack argv).length < 2 ^ 31) :
    ClientPc.make argv = .header (pack argv).length (pack argv) 0 := by
  rw [ClientPc.make, clientMessage_eq hlt, Option.elim_some]

theorem ClientPc.Left.make (h : ClientPc.connected.Left argv l) :
    (ClientPc.header (pack argv).length (pack argv) 0).Left argv l := by
  have hl : l = message argv := h
  exact ⟨rfl, rfl, by decide, by rw [hl, message, List.drop_zero]⟩

/-- A `Write` takes the next bytes. -/
theorem ClientPc.Left.wrote {pc : ClientPc} (h : pc.Left argv l) (hpos : 0 < (pack argv).length)
    (hk : k ≤ pc.rest.length) :
    (pc.wrote k).Left argv (l.drop k) ∧ l.take k = pc.rest.take k := by
  cases pc with
  | header argl args count =>
    obtain ⟨rfl, rfl, hc, rfl⟩ := h
    simp only [ClientPc.rest] at hk ⊢
    have hlen : count + k ≤ 4 := by
      rw [List.length_drop, length_intBytes] at hk
      omega
    have hdrop : ((intBytes (pack argv).length).drop count ++ pack argv).drop k =
        (intBytes (pack argv).length).drop (count + k) ++ pack argv := by
      rw [List.drop_append_of_le_length hk, List.drop_drop]
    refine ⟨?_, List.take_append_of_le_length hk⟩
    rw [hdrop]
    -- The last part of the header leads on to the body.
    by_cases hlt : count + k < 4
    · simp only [ClientPc.wrote, hlt, if_true]
      exact ⟨rfl, rfl, hlt, rfl⟩
    · have hall : (intBytes (pack argv).length).drop (count + k) = [] :=
        List.drop_eq_nil_of_le (by rw [length_intBytes]; omega)
      simp only [ClientPc.wrote, hlt, if_false, hpos, if_true, hall, List.nil_append]
      exact ⟨hpos, rfl⟩
  | body args count =>
    obtain ⟨hc, rfl⟩ := h
    refine ⟨?_, rfl⟩
    simp only [ClientPc.rest] at hk
    rw [List.drop_drop]
    by_cases hlt : count + k < args.length
    · simp only [ClientPc.wrote, hlt, if_true]
      exact ⟨hlt, rfl⟩
    · simp only [ClientPc.wrote, hlt, if_false]
      exact List.drop_eq_nil_of_le (by omega)
  | _ =>
    obtain rfl : k = 0 := by simpa [ClientPc.rest] using hk
    exact ⟨by simpa [ClientPc.wrote] using h, by simp⟩

theorem ClientPc.Left.ne_nil {pc : ClientPc} (h : pc.Left argv l) (hne : pc.rest ≠ []) : l ≠ [] := by
  cases pc with
  | header argl args count =>
    obtain ⟨-, -, -, rfl⟩ := h
    exact List.append_ne_nil_of_left_ne_nil hne _
  | body args count =>
    obtain ⟨-, rfl⟩ := h
    exact hne
  | _ => exact absurd rfl hne

theorem ClientPc.open_of_rest {pc : ClientPc} (h : pc.rest ≠ []) :
    pc.ended = false ∧ pc ≠ .failed := by
  cases pc <;> simp_all [ClientPc.rest, ClientPc.ended]

theorem ClientPc.open_wrote {pc : ClientPc} (h : pc.rest ≠ []) : (pc.wrote k).ended = false := by
  cases pc with
  | header argl args count =>
    simp only [ClientPc.wrote]
    split
    · rfl
    · split <;> rfl
  | body args count =>
    simp only [ClientPc.wrote]
    split <;> rfl
  | _ => exact absurd rfl h

theorem ServerPc.ne_aborted_of_asks {pc : ServerPc} (h : 0 < pc.asks) : pc ≠ .aborted := by
  rintro rfl
  simp [ServerPc.asks] at h

theorem ServerPc.got_ne_aborted {pc : ServerPc} (h : 0 < pc.asks) :
    pc.got sock chunk ≠ .aborted := by
  cases pc with
  | header buf =>
    simp only [ServerPc.got]
    split
    · simp
    · split <;> simp
  | body argl buf =>
    simp only [ServerPc.got]
    split
    · simp
    · unfold ServerPc.serve
      split <;> simp
  | _ => exact absurd h (by simp [ServerPc.asks])

theorem ServerPc.Has.length_lt {pc : ServerPc} (h : pc.Has sock argv l) (hasks : 0 < pc.asks) :
    l.length < (message argv).length := by
  cases pc with
  | header buf =>
    obtain ⟨rfl, hbuf⟩ := h
    rw [message, List.length_append, length_intBytes]
    omega
  | body argl buf =>
    obtain ⟨-, hbuf, rfl⟩ := h
    rw [message, List.length_append, List.length_append]
    omega
  | _ => exact absurd hasks (by simp [ServerPc.asks])

/-- **The server decodes** the arguments of the message. -/
theorem serve_eq (sock : Nat) (argv : List CString) :
    ServerPc.serve sock (pack argv).length (pack argv) = .executed (rsrvArgs sock argv) := by
  have hcount : argscount (pack argv).length (pack argv) = some argv.length := by
    rw [argscount, Int.toNat_natCast, countZeros_eq le_rfl, List.take_length, count_pack]
  have hunpack := argvunpack_eq argv [] 0 (List.length_replicate (n := argv.length) (a := 0)).ge
  rw [List.append_nil] at hunpack
  have hread := mapM_of_map (stringAt_starts 0 [] argv [])
  simp only [List.length_nil, List.nil_append, List.append_nil] at hread
  have hall : starts 0 argv ++ (List.replicate argv.length 0).drop argv.length = starts 0 argv := by
    simp
  simp only [ServerPc.serve, hcount, Option.bind_some, hunpack, hall, hread]

/-- **A `Read` takes the server to where the bytes received so far lead**, however they came. -/
theorem ServerPc.Has.got {pc : ServerPc} (h : pc.Has sock argv l)
    (hpre : l ++ chunk <+: message argv) (hk : chunk.length ≤ pc.asks) (hasks : 0 < pc.asks)
    (hpos : 0 < (pack argv).length) (hle : (pack argv).length ≤ 2048) :
    (pc.got sock chunk).Has sock argv (l ++ chunk) := by
  cases pc with
  | header buf =>
    obtain ⟨rfl, hbuf⟩ := h
    simp only [ServerPc.asks] at hk
    simp only [ServerPc.got]
    split
    · rename_i hlt
      exact ⟨rfl, hlt⟩
    · -- The header is complete: it is the length of the body, which the assertion lets pass.
      rename_i hge
      have hlen : (l ++ chunk).length = 4 := by
        rw [List.length_append] at hge ⊢
        omega
      have hint : l ++ chunk = intBytes (pack argv).length := by
        have := List.prefix_iff_eq_take.mp hpre
        rwa [hlen, message, ← length_intBytes (pack argv).length, List.take_left] at this
      have hpass : (0 : Int) < (pack argv).length ∧ ((pack argv).length : Int) ≤ 2048 := by omega
      rw [hint, intOf_intBytes (by omega), if_pos hpass]
      exact ⟨rfl, hpos, by simp⟩
  | body argl buf =>
    obtain ⟨rfl, hbuf, rfl⟩ := h
    simp only [ServerPc.asks, Int.toNat_natCast] at hk
    simp only [ServerPc.got, Int.toNat_natCast]
    split
    · rename_i hlt
      exact ⟨rfl, hlt, List.append_assoc ..⟩
    · -- So is the body, which is unpacked.
      rename_i hge
      have hlen : (buf ++ chunk).length = (pack argv).length := by
        rw [List.length_append] at hge ⊢
        omega
      have hpack : buf ++ chunk = pack argv := by
        rw [message, List.append_assoc, List.prefix_append_right_inj] at hpre
        exact hpre.eq_of_length hlen
      rw [List.append_assoc, hpack, serve_eq]
      exact ⟨rfl, rfl⟩
  | _ => exact absurd hasks (by simp [ServerPc.asks])

end

/-- The bytes of the message, wherever they are. -/
structure Remote.Flow (sock : Nat) (argv : List CString) (s : Remote) : Prop where
  stream : ∃ received unsent, received ++ s.channel ++ unsent = message argv ∧
    s.client.Left argv unsent ∧ s.server.Has sock argv received
  closed : s.closed = s.client.ended
  failed : s.readFailed = true → s.server = .aborted
  aborted : s.server = .aborted → s.client = .failed ∨ s.readFailed = true

namespace Remote.Flow

variable {sock : Nat} {argv : List CString} {s s' : Remote}

/-- **One step.** -/
theorem perform (h : s.Flow sock argv) (hpos : 0 < (pack argv).length)
    (hle : (pack argv).length ≤ 2048) {a : RemoteAction} (hs : s.perform sock argv a = some s') :
    s'.Flow sock argv := by
  obtain ⟨received, unsent, hmsg, hleft, hhas⟩ := h.stream
  have hlt : (pack argv).length < 2 ^ 31 := Nat.lt_of_le_of_lt hle (by decide)
  cases a with
  | make =>
    simp only [Remote.perform] at hs
    split at hs
    · rename_i hc
      rw [ClientPc.make_eq hlt] at hs
      cases hs
      rw [hc] at hleft
      refine ⟨⟨received, unsent, hmsg, hleft.make, hhas⟩, ?_, h.failed, fun ha => .inr ?_⟩
      · rw [h.closed, hc]
        rfl
      · exact (h.aborted ha).resolve_left (by simp [hc])
    · cases hs
  | write k =>
    obtain ⟨⟨h1, hk⟩, hs⟩ := Option.ite_none_right_eq_some.mp hs
    cases hs
    have hne : s.client.rest ≠ [] := List.ne_nil_of_length_pos (by omega)
    obtain ⟨hleft', htake⟩ := hleft.wrote hpos hk
    refine ⟨⟨received, unsent.drop k, ?_, hleft', hhas⟩, ?_, h.failed, fun ha => .inr ?_⟩
    · rw [← htake, ← hmsg]
      simp
    · rw [h.closed, (ClientPc.open_of_rest hne).1, ClientPc.open_wrote hne]
    · exact (h.aborted ha).resolve_left (ClientPc.open_of_rest hne).2
  | writeFails =>
    simp only [Remote.perform] at hs
    split at hs
    · cases hs
    · rename_i hne
      cases hs
      exact ⟨⟨received, unsent, hmsg, hleft.ne_nil hne, hhas⟩, rfl, h.failed, fun _ => .inl rfl⟩
  | shutDown =>
    simp only [Remote.perform] at hs
    split at hs
    · rename_i hc
      cases hs
      rw [hc] at hleft
      refine ⟨⟨received, unsent, hmsg, hleft, hhas⟩, rfl, h.failed, fun ha => .inr ?_⟩
      exact (h.aborted ha).resolve_left (by simp [hc])
    · cases hs
  | read k =>
    obtain ⟨⟨h1, hk, hkc⟩, hs⟩ := Option.ite_none_right_eq_some.mp hs
    cases hs
    have hasks : 0 < s.server.asks := by omega
    have hsplit : received ++ s.channel.take k ++ s.channel.drop k ++ unsent = message argv := by
      rw [List.append_assoc received, List.take_append_drop, hmsg]
    have hpre : received ++ s.channel.take k <+: message argv :=
      ⟨s.channel.drop k ++ unsent, by rw [← List.append_assoc, hsplit]⟩
    have hhas' := hhas.got hpre (by rw [List.length_take]; omega) hasks hpos hle
    refine ⟨⟨_, unsent, hsplit, hleft, hhas'⟩, h.closed, fun hf => ?_, fun ha => ?_⟩
    · exact absurd (h.failed hf) (ServerPc.ne_aborted_of_asks hasks)
    · exact absurd ha (ServerPc.got_ne_aborted hasks)
  | readEnd =>
    obtain ⟨⟨hasks, hch, hcl⟩, hs⟩ := Option.ite_none_right_eq_some.mp hs
    cases hs
    refine ⟨⟨received, unsent, hmsg, hleft, trivial⟩, h.closed, fun _ => rfl, fun _ => .inl ?_⟩
    rw [h.closed] at hcl
    cases hc : s.client with
    | failed => rfl
    | shutDown =>
      -- The whole message was sent, and so the server has it.
      rw [hc] at hleft
      obtain rfl : unsent = [] := hleft
      rw [hch, List.append_nil, List.append_nil] at hmsg
      have := hhas.length_lt hasks
      rw [hmsg] at this
      exact absurd this (lt_irrefl _)
    | _ =>
      rw [hc] at hcl
      cases hcl
  | readFails =>
    obtain ⟨hasks, hs⟩ := Option.ite_none_right_eq_some.mp hs
    cases hs
    exact ⟨⟨received, unsent, hmsg, hleft, trivial⟩, h.closed, fun _ => rfl, fun _ => .inr rfl⟩

/-- Someone can go on as long as the server reads. -/
theorem progress (h : s.Flow sock argv) (hasks : 0 < s.server.asks) :
    ∃ a s', a.regular = true ∧ s.perform sock argv a = some s' := by
  obtain ⟨received, unsent, -, hleft, -⟩ := h.stream
  by_cases hch : s.channel = []
  · have hend : s.client.ended = true → ∃ a s', a.regular = true ∧
        s.perform sock argv a = some s' := fun he =>
      ⟨.readEnd, _, rfl, if_pos ⟨hasks, hch, h.closed.trans he⟩⟩
    cases hc : s.client with
    | connected =>
      exact ⟨.make, { s with client := .make argv }, rfl, by simp only [Remote.perform, hc]⟩
    | header argl args count =>
      rw [hc] at hleft
      obtain ⟨-, -, hcount, -⟩ := hleft
      refine ⟨.write 1, _, rfl, if_pos ⟨le_rfl, ?_⟩⟩
      rw [hc, ClientPc.rest, List.length_drop, length_intBytes]
      omega
    | body args count =>
      rw [hc] at hleft
      obtain ⟨hcount, -⟩ := hleft
      refine ⟨.write 1, _, rfl, if_pos ⟨le_rfl, ?_⟩⟩
      rw [hc, ClientPc.rest, List.length_drop]
      omega
    | written =>
      exact ⟨.shutDown, { s with client := .shutDown, closed := true }, rfl, by
        simp only [Remote.perform, hc]⟩
    | shutDown | failed => exact hend (by rw [hc]; rfl)
    | fault =>
      rw [hc] at hleft
      exact hleft.elim
  · exact ⟨.read 1, _, rfl, if_pos ⟨le_rfl, hasks, List.length_pos_iff.mpr hch⟩⟩

theorem delivers (h : s.Flow sock argv) : s.Delivers sock argv := by
  obtain ⟨received, unsent, hmsg, hleft, hhas⟩ := h.stream
  refine ⟨?_, ⟨?_, ?_⟩, ?_, ?_, h.aborted, h.progress⟩
  · intro hc
    rw [hc] at hhas
    exact hhas
  · intro hc
    rw [hc] at hleft
    exact hleft
  · intro hc
    rw [hc] at hhas
    exact hhas
  · intro a ha
    rw [ha] at hhas
    exact hhas.1
  · rintro (hc | hf) a ha
    · rw [hc] at hleft
      rw [ha] at hhas
      obtain ⟨-, rfl⟩ := hhas
      rw [List.append_assoc, List.append_right_eq_self, List.append_eq_nil_iff] at hmsg
      exact hleft hmsg.2
    · rw [h.failed hf] at ha
      cases ha

end Remote.Flow

theorem Remote.inductive_flow {sock : Nat} {argv : List CString} (hpos : 0 < (pack argv).length)
    (hle : (pack argv).length ≤ 2048) : (remoteSys sock argv).Inductive (Flow sock argv) where
  init := by
    rintro s rfl
    refine ⟨⟨[], message argv, by simp [initial], rfl, rfl, by decide⟩, rfl, ?_, ?_⟩
    · intro hf
      cases hf
    · intro ha
      cases ha
  step _ _ _ h _ hs := h.perform hpos hle hs

/-! ## Longer messages -/

theorem ServerPc.got_long (sock : Nat) {argv : List CString}
    (hlong : 2048 < (pack argv).length) (hlt : (pack argv).length < 2 ^ 31) :
    (ServerPc.header []).got sock (intBytes (pack argv).length) = .assertFailed := by
  have hfail : ¬ ((0 : Int) < (pack argv).length ∧ ((pack argv).length : Int) ≤ 2048) := by omega
  simp only [got, List.nil_append, length_intBytes, lt_irrefl, if_false, intOf_intBytes hlt, hfail]

/-- The client sends the length of a message that is too long, and the server's assertion fails. -/
theorem Remote.reach_assertFailed (sock : Nat) {argv : List CString}
    (hlong : 2048 < (pack argv).length) (hlt : (pack argv).length < 2 ^ 31) :
    ∃ s, (remoteSys sock argv).Reach s ∧ s.server = .assertFailed := by
  obtain ⟨s₁, hs₁⟩ : ∃ s₁ : Remote, s₁ =
    { initial with client := .header (pack argv).length (pack argv) 0 } := ⟨_, rfl⟩
  have hmake : (remoteSys sock argv).step initial .make = some s₁ := by
    simp only [remoteSys, perform, initial, ClientPc.make_eq hlt, hs₁]
  have hrest : s₁.client.rest = intBytes (pack argv).length := by rw [hs₁]; rfl
  obtain ⟨s₂, hs₂⟩ : ∃ s₂ : Remote, s₂ =
    { s₁ with client := s₁.client.wrote 4, channel := intBytes (pack argv).length } := ⟨_, rfl⟩
  have hwrite : (remoteSys sock argv).step s₁ (.write 4) = some s₂ := by
    have hch : s₁.channel = [] := by rw [hs₁]; rfl
    have hall : (intBytes (pack argv).length).take 4 = intBytes (pack argv).length :=
      List.take_of_length_le (by rw [length_intBytes])
    simp only [remoteSys, perform, hrest, length_intBytes, hch, hall, List.nil_append, hs₂]
    simp
  obtain ⟨s₃, hs₃⟩ : ∃ s₃ : Remote, s₃ =
    { s₂ with server := .assertFailed, channel := [] } := ⟨_, rfl⟩
  have hread : (remoteSys sock argv).step s₂ (.read 4) = some s₃ := by
    have hsv : s₂.server = .header [] := by rw [hs₂, hs₁]; rfl
    have hch : s₂.channel = intBytes (pack argv).length := by rw [hs₂]
    have hall : (intBytes (pack argv).length).take 4 = intBytes (pack argv).length :=
      List.take_of_length_le (by rw [length_intBytes])
    have hnone : (intBytes (pack argv).length).drop 4 = [] :=
      List.drop_eq_nil_of_le (by rw [length_intBytes])
    simp only [remoteSys, perform, hsv, hch, hall, hnone, length_intBytes,
      ServerPc.got_long sock hlong hlt, hs₃]
    simp [ServerPc.asks]
  refine ⟨s₃, ?_, by rw [hs₃]⟩
  have h₀ : (remoteSys sock argv).Reach initial := .init rfl
  exact ((h₀.next hmake).next hwrite).next hread

/-- The client makes up a message whose length does not fit an `int`. -/
theorem Remote.reach_fault (sock : Nat) {argv : List CString} (h : 2 ^ 31 ≤ (pack argv).length) :
    ∃ s, (remoteSys sock argv).Reach s ∧ s.client = .fault := by
  have hmake : ClientPc.make argv = .fault := by
    rw [ClientPc.make, clientMessage_none h, Option.elim_none]
  have hstep : (remoteSys sock argv).step initial .make = some { initial with client := .fault } := by
    simp only [remoteSys, perform, initial, hmake]
  have h₀ : (remoteSys sock argv).Reach initial := .init rfl
  exact ⟨_, h₀.next hstep, rfl⟩

/-- **The server decodes the arguments of the client**, if their packed length is at most 2048. -/
theorem remote_agrees_iff (sock : Nat) (argv : List CString) :
    RemoteAgrees sock argv ↔ (pack argv).length ≤ 2048 := by
  constructor
  · intro h
    by_contra hlong
    have hne : argv ≠ [] := by
      rintro rfl
      simp at hlong
    by_cases hlt : (pack argv).length < 2 ^ 31
    · obtain ⟨s, hr, hs⟩ := Remote.reach_assertFailed sock (Nat.lt_of_not_le hlong) hlt
      exact (h hne s hr).asserted hs
    · obtain ⟨s, hr, hs⟩ := Remote.reach_fault sock (Nat.le_of_not_lt hlt)
      exact (h hne s hr).defined.1 hs
  · intro hle hne s hr
    have hpos : 0 < (pack argv).length := by
      have := length_le_pack argv
      have := List.length_pos_iff.mpr hne
      omega
    exact ((Remote.inductive_flow hpos hle).reachIf hr).delivers

/-- One argument of 2048 letters. -/
theorem not_remote_agrees : ¬ ∀ sock argv, RemoteAgrees sock argv := by
  intro hall
  obtain ⟨arg, harg⟩ : ∃ arg : CString, arg.1.length = 2048 := by
    have h0 : (0 : UInt8) ∉ List.replicate 2048 97 := fun h =>
      absurd (List.eq_of_mem_replicate h) (by decide)
    exact ⟨⟨List.replicate 2048 97, h0⟩, List.length_replicate⟩
  have hlen : (pack [arg]).length = 2049 := by
    rw [length_pack_cons, harg]
    rfl
  have hlong : 2048 < (pack [arg]).length := by omega
  obtain ⟨s, hr, hs⟩ := Remote.reach_assertFailed 3 hlong (by omega)
  exact (hall 3 [arg] (by simp) s hr).asserted hs

end TinyOS
