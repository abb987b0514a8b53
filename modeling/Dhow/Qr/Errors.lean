import Mathlib.Data.Int.Notation
import Mathlib.Data.Nat.Notation

/-!
# Errors of the QR decoder

The error-correction levels of `tables.go` and the errors that `decode.go` and `rs.go` report,
each with the values that it is formatted with.
-/

namespace Dhow.Qr

/-- The levels in the order that the tables are indexed by. -/
inductive Level
  | low
  | medium
  | quartile
  | high
  deriving DecidableEq

namespace Level

def toNat : Level → ℕ
  | low => 0
  | medium => 1
  | quartile => 2
  | high => 3

def string : Level → String
  | low => "L"
  | medium => "M"
  | quartile => "Q"
  | high => "H"

end Level

def modeName (mode : ℕ) : String :=
  if mode = 0x1 then "numeric"
  else if mode = 0x2 then "alphanumeric"
  else if mode = 0x3 then "structured append"
  else if mode = 0x5 then "FNC1 first position"
  else if mode = 0x7 then "ECI"
  else if mode = 0x8 then "kanji"
  else if mode = 0x9 then "FNC1 second position"
  else "unassigned"

inductive QrError
  | notAQRCode
  | notASize (size : ℤ)
  | noLayout (version : ℤ) (level : Level)
  | formatInfo
  | uncorrectable
  | block (j : ℕ) (err : QrError)
  | unsupportedMode (mode : ℕ)
  | countTruncated
  | bodyTruncated (count : ℕ) (remaining : ℤ)
  | truncated
  deriving DecidableEq

namespace QrError

/-- The error that an error wraps. -/
def base : QrError → QrError
  | notAQRCode | notASize _ | noLayout _ _ => notAQRCode
  | formatInfo => formatInfo
  | uncorrectable => uncorrectable
  | block _ err => err.base
  | unsupportedMode mode => unsupportedMode mode
  | countTruncated | bodyTruncated _ _ | truncated => truncated

def notAQRCodeText : String := "qr: grid is not a QR symbol size"

def truncatedText : String := "qr: segment declares more data than the symbol holds"

def text : QrError → String
  | notAQRCode => notAQRCodeText
  | notASize size => notAQRCodeText ++ ": " ++ toString size ++ " modules per side"
  | noLayout version level =>
    notAQRCodeText ++ ": version " ++ toString version ++ " level " ++ level.string
  | formatInfo => "qr: format information is unreadable"
  | uncorrectable => "qr: block has more errors than can be corrected"
  | block j err => "block " ++ toString j ++ ": " ++ err.text
  | unsupportedMode mode =>
    "qr: only byte-mode segments are supported: found " ++ modeName mode ++ " (0x" ++
      String.ofList (Nat.toDigits 16 mode) ++ ")"
  | truncated => truncatedText
  | countTruncated => truncatedText ++ ": character count field is truncated"
  | bodyTruncated count remaining =>
    truncatedText ++ ": " ++ toString count ++ " bytes declared, " ++ toString remaining ++
      " bits left"

end QrError

end Dhow.Qr
