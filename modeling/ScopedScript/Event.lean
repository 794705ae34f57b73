import ScopedScript.Frame

/-!
# Events

What the stages of a run report as they go: a level, a message and named fields.
-/

namespace ScopedScript

/-- What happened during a run. -/
inductive Event where
  /-- A source was read into tokens. -/
  | sourceTokenized (count : Nat)
  /-- The tokens of a source are at hand. -/
  | tokenized (tokens : Nat)
  /-- Tokens were read into a program. -/
  | programParsed (statements : Nat)
  /-- The program of a source is at hand. -/
  | parsed (statements : Nat)
  | scopeEntered (index : Nat) (name : String) (level : Nat)
  | scopeLeft (name : String) (level symbols : Nat)
  /-- The checker accepted a program. -/
  | programAnalyzed (scopes : Nat)
  /-- A checked program is at hand. -/
  | analyzed
  | framePushed (name : String) (kind : FrameKind) (level depth : Nat)
  | framePopped (name : String) (kind : FrameKind) (level depth : Nat)
  | called (function : String) (depth : Nat)
  | programFinished (ok : Bool)
  deriving DecidableEq

/-- How much an event matters. -/
inductive Event.Level where
  | trace
  | debug
  deriving DecidableEq

/-- What a field of an event holds. -/
inductive Event.Field where
  | number (n : Nat)
  | flag (b : Bool)
  | text (s : String)
  deriving DecidableEq

namespace Event

/-- How much an event matters. -/
def level : Event → Level
  | scopeEntered .. | scopeLeft .. | framePushed .. | framePopped .. | called .. => .trace
  | _ => .debug

/-- The name of a level. -/
def Level.name : Level → String
  | .trace => "trace"
  | .debug => "debug"

/-- The message of an event. -/
def message : Event → String
  | sourceTokenized _ => "tokenized source"
  | tokenized _ => "tokenized"
  | programParsed _ => "parsed program"
  | parsed _ => "parsed"
  | scopeEntered .. => "enter scope"
  | scopeLeft .. => "exit scope"
  | programAnalyzed _ => "analyzed program"
  | analyzed => "analyzed"
  | framePushed .. => "push frame"
  | framePopped .. => "pop frame"
  | called .. => "call"
  | programFinished _ => "program finished"

/-- The named fields of an event. -/
def fields : Event → List (String × Field)
  | sourceTokenized count => [("count", .number count)]
  | tokenized tokens => [("tokens", .number tokens)]
  | programParsed statements | parsed statements => [("statements", .number statements)]
  | scopeEntered index name level =>
    [("index", .number index), ("name", .text name), ("level", .number level)]
  | scopeLeft name level symbols =>
    [("name", .text name), ("level", .number level), ("symbols", .number symbols)]
  | programAnalyzed scopes => [("scopes", .number scopes)]
  | analyzed => []
  | framePushed name kind level depth | framePopped name kind level depth =>
    [("name", .text name), ("kind", .text kind.name), ("level", .number level),
     ("depth", .number depth)]
  | called function depth => [("function", .text function), ("depth", .number depth)]
  | programFinished ok => [("ok", .flag ok)]

end Event

end ScopedScript
