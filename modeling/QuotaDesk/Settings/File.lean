import QuotaDesk.Settings.Basic
import QuotaDesk.Settings.Toml.Document

/-! Settings files. A file is read as UTF-8 with U+FFFD for what is none, and a
byte order mark in front of it is left out. The environment goes over the file. -/

namespace QuotaDesk.Settings

inductive FileFormat
  | json
  | toml
  deriving DecidableEq, Repr

def byteOrderMark : List UInt8 := [0xEF, 0xBB, 0xBF]

def fileChars (bytes : List UInt8) : List Char :=
  Text.Utf8.decodeLossy ((Text.after? byteOrderMark bytes).getD bytes)

def Layer.ofFile? (format : FileFormat) (bytes : List UInt8) : Option Layer :=
  match format with
  | .json => Layer.ofJson? (Text.Utf8.encode (fileChars bytes))
  | .toml => Layer.ofToml? (fileChars bytes)

structure File where
  format : FileFormat
  bytes : List UInt8
  deriving DecidableEq, Repr

def Layer.given? (file : Option File) (env : List (String × String)) : Option Layer :=
  let fromFile? :=
    match file with
    | none => some []
    | some f => Layer.ofFile? f.format f.bytes
  fromFile?.map (· ++ Layer.ofEnvironment env)

def Service.load? (file : Option File) (env : List (String × String)) : Option Service :=
  (Layer.given? file env).bind Service.ofLayer?

def Server.load? (file : Option File) (env : List (String × String)) : Option Server :=
  (Layer.given? file env).bind Server.ofLayer?

end QuotaDesk.Settings
