import EcmaLex.Config
import EcmaLex.Log
import EcmaLex.Scan
import EcmaLex.SourceBuffer

/-!
Streams of tokens. A fault in the source text is a token, and reading goes on after it. A failure of
the input ends the stream for good: it is reported once, and after it the stream is terminated.
-/
namespace EcmaLex

inductive StreamError where
  | input (file : String) (line : UInt32) (cause : ReadFailure)
  | terminated
  deriving DecidableEq, Repr

def StreamError.message : StreamError → String
  | .input file line cause =>
    file ++ ":" ++ Nat.repr line.toNat ++ ": failed to read source: " ++ cause.message
  | .terminated => "token stream terminated after an input failure"

/-- Either error comes down to the input. -/
def StreamError.fault : StreamError → LexFault
  | .input .. => .inputFailure
  | .terminated => .inputFailure

/-- What a stream reports besides its tokens. -/
inductive StreamEvent where
  | window (e : WindowEvent)
  | fault (file : String) (loc : Location) (sourceLine : String) (fault : LexFault)
  | token (kind : TokenKind) (loc : Location)
  | inputFailure (file : String) (line : UInt32) (cause : ReadFailure)
  deriving DecidableEq, Repr

def StreamEvent.entry : StreamEvent → LogEntry
  | .window e => e.entry
  | .fault file loc sourceLine found =>
    ⟨.debug, "Lexical error: " ++ found.message,
      [("file", .text file), ("line", .number loc.line.toNat), ("column", .number loc.column.toNat),
        ("source_line", .text sourceLine)]⟩
  | .token kind loc =>
    ⟨.trace, "Token",
      [("kind", .text kind.detail), ("line", .number loc.line.toNat),
        ("column", .number loc.column.toNat)]⟩
  | .inputFailure file line cause =>
    ⟨.error, "Failed to read source",
      [("file", .text file), ("line", .number line.toNat), ("error", .text cause.message)]⟩

structure TokenStream where
  buffer : SourceBuffer
  fileName : String
  mode : Mode
  /-- The input has failed. -/
  failed : Bool := false
  /-- The items have come to an end. -/
  finished : Bool := false
  /-- Newest first; events of the window move here when a token is read. -/
  log : List StreamEvent := []

namespace TokenStream

def ofConfig (reader : ByteReader) (c : Config) : TokenStream where
  buffer := .ofReader reader c.bufferCapacity c.startLine
  fileName := c.fileName
  mode := c.mode

def ofReader (reader : ByteReader) : TokenStream := ofConfig reader {}

def ofText (text : String) : TokenStream := ofReader (.ofText text)

def ofConfig? (reader : ByteReader) (c : Config) : Except ConfigError TokenStream :=
  c.validate.map (ofConfig reader)

/-- Puts what the window reported behind what the stream reported. -/
def collectEvents (t : TokenStream) : TokenStream :=
  { t with
    buffer := { t.buffer with window := { t.buffer.window with log := [] } }
    log := t.buffer.window.log.map .window ++ t.log }

def record (event : StreamEvent) (t : TokenStream) : TokenStream :=
  { t with log := event :: t.log }

def lineNumber (t : TokenStream) : UInt32 := t.buffer.lineNumber

def currentLine (t : TokenStream) : String := String.ofList t.buffer.window.currentLine

def token (t : TokenStream) (p : Placed) : Token :=
  { kind := p.kind, lexeme := String.ofList t.buffer.lexeme, position := ⟨t.fileName, p.loc⟩ }

def recordFault (p : Placed) (t : TokenStream) : TokenStream :=
  match p.kind.fault? with
  | some fault => t.record (.fault t.fileName p.loc t.currentLine fault)
  | none => t

theorem recordFault_buffer (p : Placed) (t : TokenStream) : (t.recordFault p).buffer = t.buffer := by
  unfold recordFault
  split <;> rfl

variable [Library]

/-- The next token. After the end of input every call answers the end of input again. -/
def next (t : TokenStream) : Except StreamError Token × TokenStream :=
  if t.failed then (.error .terminated, t)
  else
    match scan t.mode t.buffer with
    | (.ok p, buffer) =>
      let t := collectEvents { t with buffer }
      (.ok (t.token p), (t.recordFault p).record (.token p.kind p.loc))
    | (.error cause, buffer) =>
      let t := collectEvents { t with buffer, failed := true }
      (.error (.input t.fileName t.lineNumber cause),
        t.record (.inputFailure t.fileName t.lineNumber cause))

/-- The next item: a token or an error. The end of input is no item, and after it or after an error
there is none. -/
def nextItem (t : TokenStream) : Option (Except StreamError Token) × TokenStream :=
  if t.finished then (none, t)
  else
    match t.next with
    | (.ok token, t) =>
      if token.isEof then (none, { t with finished := true }) else (some (.ok token), t)
    | (.error e, t) => (some (.error e), { t with finished := true })

theorem remaining_next {t t' : TokenStream} {token : Token} (read : t.next = (.ok token, t'))
    (more : token.isEof = false) : t'.buffer.remaining < t.buffer.remaining := by
  unfold next at read
  split at read
  · cases read
  · split at read
    · rename_i p buffer scanned
      cases read
      have kept : ((collectEvents { t with buffer }).recordFault p).buffer.remaining =
          buffer.remaining := by
        rw [recordFault_buffer]; rfl
      have used : buffer.remaining < t.buffer.remaining :=
        remaining_scan scanned (by simpa [Token.isEof, TokenStream.token] using more)
      simpa only [record, kept] using used
    · cases read

/-- The answers of `next` up to the end of input or an error. -/
def readAll (t : TokenStream) : List (Except StreamError Token) × TokenStream :=
  match _read : t.next with
  | (.error e, t₁) => ([.error e], t₁)
  | (.ok token, t₁) =>
    if _more : token.isEof then ([.ok token], t₁)
    else
      let rest := readAll t₁
      (.ok token :: rest.1, rest.2)
termination_by t.buffer.remaining
decreasing_by exact remaining_next _read (by simpa using _more)

theorem remaining_nextItem {t t' : TokenStream} {token : Token}
    (read : t.nextItem = (some (.ok token), t')) : t'.buffer.remaining < t.buffer.remaining := by
  unfold nextItem at read
  split at read
  · cases read
  · split at read
    · split at read
      · cases read
      · rename_i token' t₁ answered more
        cases read
        exact remaining_next answered (by simpa using more)
    · cases read

def items (t : TokenStream) : List (Except StreamError Token) × TokenStream :=
  match _read : t.nextItem with
  | (none, t₁) => ([], t₁)
  | (some (.error e), t₁) => ([.error e], t₁)
  | (some (.ok token), t₁) =>
    let rest := items t₁
    (.ok token :: rest.1, rest.2)
termination_by t.buffer.remaining
decreasing_by exact remaining_nextItem _read

end TokenStream

def version : String := "0.1.0"

/-- All tokens of a text, the end of input last. -/
def tokenize [Library] (text : String) : Except StreamError (List Token) :=
  (TokenStream.ofText text).readAll.1.mapM id

end EcmaLex
