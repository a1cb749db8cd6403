import RailsSchema.Log.Event
import RailsSchema.Text.Printable
import RailsSchema.Json.Basic

/-!
# Log lines

An event is logged on one line: its level, the part of the program that it comes from, what happened
and, in quotes, to which text. A log shows the events of its level and of the graver ones.
-/

namespace RailsSchema

namespace Log

/-- How grave an event is, the gravest first. -/
inductive Level where
  | error
  | warn
  | info
  | debug
  | trace
  deriving DecidableEq, Repr

namespace Level

/-- The place of a level, the gravest being the lowest. -/
def rank : Level → Nat
  | error => 0
  | warn => 1
  | info => 2
  | debug => 3
  | trace => 4

/-- The name of a level, five characters wide. -/
def label : Level → String
  | error => "ERROR"
  | warn => " WARN"
  | info => " INFO"
  | debug => "DEBUG"
  | trace => "TRACE"

end Level

/-- The finest level that is shown, or `none` where nothing is. -/
abbrev Threshold := Option Level

/-- The threshold that goes by a name. -/
def Threshold.ofName? (name : String) : Option Threshold :=
  match name.toLower with
  | "off" => some none
  | "error" => some (some .error)
  | "warn" => some (some .warn)
  | "info" => some (some .info)
  | "debug" => some (some .debug)
  | "trace" => some (some .trace)
  | _ => none

/-- The threshold that a setting asks for, with or without the name of this program in front. It is
that of warnings where the setting names none. -/
def Threshold.ofSetting (setting : String) : Threshold :=
  let name := (Text.after? "schemarb=".toList setting.toList).getD setting.toList
  (Threshold.ofName? (String.ofList name)).getD (some .warn)

/-- Whether events of a level are shown. -/
def Threshold.shows (threshold : Threshold) (level : Level) : Bool :=
  match threshold with
  | none => false
  | some finest => level.rank ≤ finest.rank

/-- The digits of a number in hexadecimal, in lower case. -/
def hexDigits (n : Nat) : List Char :=
  if n < 16 then [Json.hexDigit n] else hexDigits (n / 16) ++ [Json.hexDigit (n % 16)]

/-- A character by its code point. -/
def codePoint (c : Char) : List Char := ['\\', 'u', '\x7b'] ++ hexDigits c.toNat ++ ['\x7d']

/-- How a character is written inside a quoted text. -/
def escape (c : Char) : List Char :=
  match c with
  | '"' => ['\\', '"']
  | '\\' => ['\\', '\\']
  | '\n' => ['\\', 'n']
  | '\r' => ['\\', 'r']
  | '\t' => ['\\', 't']
  | '\x00' => ['\\', '0']
  | c => if Text.isPrintable c then [c] else codePoint c

/-- A text in quotes. -/
def quote (text : String) : String :=
  String.ofList ('"' :: (text.toList.flatMap escape ++ ['"']))

/-- How a character of a message is written: those that could steer a terminal are made visible. -/
def messageChar (c : Char) : List Char :=
  match c with
  | '\x07' => ['\\', 'x', '0', '7']
  | '\x08' => ['\\', 'x', '0', '8']
  | '\x0c' => ['\\', 'x', '0', 'c']
  | '\x1b' => ['\\', 'x', '1', 'b']
  | '\x7f' => ['\\', 'x', '7', 'f']
  | c => if 0x80 ≤ c.toNat && c.toNat ≤ 0x9F then codePoint c else [c]

/-- A message as it is logged. -/
def message (text : String) : String := String.ofList (text.toList.flatMap messageChar)

/-- A named text behind a message. -/
def field (name text : String) : String := " " ++ name ++ "=" ++ quote text

end Log

namespace Event

/-- How grave an event is. -/
def level : Event → Log.Level
  | .unresolved _ => .warn
  | _ => .debug

/-- The part of the program that an event comes from. -/
def source : Event → String
  | .cut _ => "schemarb::options"
  | _ => "schemarb::parser"

/-- What an event says. -/
def description : Event → String
  | .cut (.item rest) => "array truncated at unparsable element" ++ Log.field "rest" rest
  | .cut (.key rest) => "option hash truncated at unparsable key" ++ Log.field "rest" rest
  | .cut (.value key rest) =>
    "option hash truncated at unparsable value" ++ Log.field "key" key ++ Log.field "rest" rest
  | .redefined table => "table redefined" ++ Log.field "table" table
  | .unresolved diagnostic => Log.message diagnostic.message

/-- The line that logs an event. -/
def line (event : Event) : String :=
  event.level.label ++ " " ++ event.source ++ ": " ++ event.description ++ "\n"

end Event

/-- The lines that log some events, as far as the threshold lets them through. -/
def Log.text (threshold : Log.Threshold) (events : List Event) : String :=
  String.join ((events.filter fun event => threshold.shows event.level).map Event.line)

end RailsSchema
