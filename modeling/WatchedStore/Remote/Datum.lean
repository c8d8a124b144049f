import WatchedStore.Decimal.Layout
import WatchedStore.Reply
import WatchedStore.Text.Utf8

/-!
# What a server answers

A datum is a value in a server's answer. Arrays, sets, maps, pushed data and data with attributes nest. An
error is a code and, usually, a detail behind it; one that hides anywhere inside an answer makes the whole
answer fail.
-/

namespace WatchedStore.Remote

/-- An error that a server signals: its first word, and what follows it. -/
structure ServerError where
  code : String
  detail : Option String
  deriving DecidableEq

/-- Splits an error line at its first blank. -/
def ServerError.ofLine (line : String) : ServerError :=
  let code := line.toList.takeWhile (· != ' ')
  match line.toList.drop code.length with
  | [] => ⟨String.ofList code, none⟩
  | _ :: detail => ⟨String.ofList code, some (String.ofList detail)⟩

/-- A value in a server's answer. -/
inductive Datum where
  | nil
  | integer (n : Int64)
  | bulk (bytes : Bytes)
  | simple (text : String)
  | boolean (b : Bool)
  | double (x : Float)
  | array (items : List Datum)
  | set (items : List Datum)
  | map (entries : List (Datum × Datum))
  | error (e : ServerError)
  /-- A datum that something is said about. -/
  | attributed (data : Datum) (attributes : List (Datum × Datum))
  /-- A text in a format, which is named as it is shown. -/
  | verbatim (format text : String)
  /-- An integer of any size. -/
  | bigInteger (n : Int)
  /-- Data that were not asked for, of a kind that is named as it is shown. -/
  | push (kind : String) (items : List Datum)

/-- The classes of errors whose code is known. -/
def ServerError.className? (e : ServerError) : Option String :=
  match e.code with
  | "ERR" => some "ResponseError"
  | "EXECABORT" => some "ExecAbortError"
  | "LOADING" => some "BusyLoadingError"
  | "NOSCRIPT" => some "NoScriptError"
  | "MOVED" => some "Moved"
  | "ASK" => some "Ask"
  | "TRYAGAIN" => some "TryAgain"
  | "CLUSTERDOWN" => some "ClusterDown"
  | "CROSSSLOT" => some "CrossSlot"
  | "MASTERDOWN" => some "MasterDown"
  | "READONLY" => some "ReadOnly"
  | "NOTBUSY" => some "NotBusy"
  | "NOSUB" => some "NoSub"
  | _ => none

/-- An error as a record. -/
def ServerError.debugText (e : ServerError) : String :=
  let detail := e.detail.elim "None" fun d => "Some(" ++ Text.quote d ++ ")"
  match e.className? with
  | some name => "KnownError \x7b kind: " ++ name ++ ", detail: " ++ detail ++ " \x7d"
  | none => "ExtensionError \x7b code: " ++ Text.quote e.code ++ ", detail: " ++ detail ++ " \x7d"

/-- Doubles from a ten-thousandth to below 10^16 are shown positionally. -/
def doubleLayout : Decimal.Layout := ⟨-4, 15, false, true⟩

namespace Datum

mutual

/-- A datum as it is shown in messages. -/
def debugText : Datum → String
  | .nil => "nil"
  | .integer n => "int(" ++ Numeral.text n.toInt ++ ")"
  | .bulk bytes =>
    match Utf8.decode? bytes with
    | some s => "bulk-string('" ++ Text.quote s ++ "')"
    | none => "binary-data(" ++ Text.bracketed (bytes.map fun b => Numeral.text b.toNat) ++ ")"
  | .simple s => if s = "OK" then "ok" else "simple-string(" ++ Text.quote s ++ ")"
  | .boolean b => if b then "boolean(true)" else "boolean(false)"
  | .double x => "double(" ++ String.ofList (doubleLayout.double x) ++ ")"
  | .array items => "array(" ++ Text.bracketed (itemTexts items) ++ ")"
  | .set items => "set(" ++ Text.bracketed (itemTexts items) ++ ")"
  | .map entries => "map(" ++ Text.bracketed (entryTexts entries) ++ ")"
  | .error e => "server-error(" ++ e.debugText ++ ")"
  | .attributed data _ => "attribute(" ++ data.debugText ++ ")"
  | .verbatim format text => "verbatim-string(" ++ format ++ "," ++ Text.quote text ++ ")"
  | .bigInteger n => "big-number(" ++ Numeral.text n ++ ")"
  | .push kind items => "push(" ++ kind ++ ", " ++ Text.bracketed (itemTexts items) ++ ")"

/-- Each of several data as it is shown. -/
def itemTexts : List Datum → List String
  | [] => []
  | d :: rest => d.debugText :: itemTexts rest

/-- Each entry of a map as it is shown. -/
def entryTexts : List (Datum × Datum) → List String
  | [] => []
  | (k, v) :: rest => ("(" ++ k.debugText ++ ", " ++ v.debugText ++ ")") :: entryTexts rest

end

mutual

/-- The first error anywhere inside a datum. -/
def firstError? : Datum → Option ServerError
  | .error e => some e
  | .array items => firstErrorOf? items
  | .set items => firstErrorOf? items
  | .map entries => firstErrorIn? entries
  | .attributed data attributes => data.firstError?.or (firstErrorIn? attributes)
  | .push _ items => firstErrorOf? items
  | _ => none

/-- The first error in several data. -/
def firstErrorOf? : List Datum → Option ServerError
  | [] => none
  | d :: rest => d.firstError?.or (firstErrorOf? rest)

/-- The first error in the entries of a map. -/
def firstErrorIn? : List (Datum × Datum) → Option ServerError
  | [] => none
  | (k, v) :: rest => (k.firstError?.or v.firstError?).or (firstErrorIn? rest)

end

end Datum

/-- How a driver shows what a server answers in messages. -/
structure Display where
  datum : Datum → String
  error : ServerError → String

/-- What a driver usually shows. -/
def Display.standard : Display := ⟨Datum.debugText, ServerError.debugText⟩

namespace Datum

/-- The failure of a datum that no reply can carry. -/
def unsupported (display : Display) (d : Datum) : Error :=
  .serialization ("Unsupported Redis value type: " ++ display.datum d)

mutual

/-- A datum as a reply; sets become arrays, truth values one and zero. A datum of a kind that no reply can
carry makes the whole fail, the first one from the left. -/
def toReply (display : Display) : Datum → Except Error Reply
  | .nil => .ok .nil
  | .integer n => .ok (.integer n)
  | .bulk bytes => .ok (.data bytes)
  | .simple s => .ok (.status s)
  | .boolean b => .ok (.ofBool b)
  | .array items => .array <$> toReplies display items
  | .set items => .array <$> toReplies display items
  | .error e => .ok (.error (display.error e))
  | other => .error (unsupported display other)

/-- Data as replies, in their order. -/
def toReplies (display : Display) : List Datum → Except Error (List Reply)
  | [] => .ok []
  | d :: rest =>
    match d.toReply display, toReplies display rest with
    | .error e, _ => .error e
    | .ok _, .error e => .error e
    | .ok r, .ok replies => .ok (r :: replies)

end

end Datum

end WatchedStore.Remote
