import Misterplex.Companion.Text
import Mathlib.Data.List.DropRight

/-!
# Server addresses and query values

A configured or reported server becomes a base address with a scheme and a
port. Values in a query are percent-encoded byte by byte.
-/

namespace Misterplex.Plex

open Misterplex.Companion

/-- The blanks that are trimmed. -/
def blanks : List Char := [' ','\t','\r','\n']

/-- The authority of an address names a port. -/
def hasPort (auth : List Char) : Bool :=
  match auth with
  | '[' :: _ => (auth.dropWhile (· != ']')).drop 1 |>.head? |> (· == some ':')
  | _ => auth.contains ':'

/-- An address without scheme is taken for one of an unencrypted server. -/
def withScheme (s : List Char) : List Char :=
  if (behind "://".toList s).isSome then s else "http://".toList ++ s

/-- An address without port gets the one of the media server. -/
def withPort (s : List Char) : List Char :=
  match behind "://".toList s with
  | none => s
  | some rest =>
    let auth := rest.takeWhile (· != '/')
    if !hasPort auth && !auth.isEmpty then
      s.take (s.length-rest.length) ++ auth ++ ":32400".toList ++ rest.drop auth.length
    else s

/-- The base address of a server: trimmed, with scheme and port, without trailing slashes. -/
def normalizePlexBase (raw : String) : String :=
  let s := (raw.toList.dropWhile blanks.contains).rdropWhile ('/' :: blanks).contains
  if s.isEmpty then ""
  else String.ofList (withPort ((withScheme s).rdropWhile (· == '/')))

/-- A hexadecimal digit in capitals. -/
def hexDigit (n : ℕ) : Char := if n < 10 then Char.ofNat (48+n) else Char.ofNat (55+n)

/-- One byte of a query value. -/
def encodeByte (c : Char) : List Char :=
  if c.isAlphanum || c == '-' || c == '_' || c == '.' || c == '~' then [c]
  else ['%',hexDigit (c.toNat/16),hexDigit (c.toNat%16)]

/-- A query value, percent-encoded. -/
def urlEncodeQuery (s : String) : String := String.ofList (s.toList.flatMap encodeByte)

end Misterplex.Plex
