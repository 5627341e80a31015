import Scaffold.Output

/-! # Summary

A run ends with a box that counts what was generated. Its inside is fifty characters
wide; a text that is too long for its place is shown in full and moves the border.
Sizes from 1024 bytes on are given in kilobytes with one decimal. A size exactly
between two decimals goes to the even one.
-/

namespace Scaffold

open Artifact (Role)

/-- The counts of a run. -/
structure Summary where
  outputDir : Path
  dryRun : Bool
  totalFiles : Nat
  enumFiles : Nat
  entityFiles : Nat
  dtoFiles : Nat
  serviceFiles : Nat
  indexFiles : Nat
  warningCount : Nat
  totalBytes : Nat
deriving DecidableEq, Repr

namespace Summary

def ofOutput (o : Output) (c : Config) : Summary where
  outputDir := c.outputDir
  dryRun := c.dryRun
  totalFiles := o.files.length
  enumFiles := (o.filesOf .enumeration).length
  entityFiles := (o.filesOf .entity).length
  dtoFiles := (o.filesOf .createDto).length
  serviceFiles := (o.filesOf .service).length
  indexFiles := (o.filesOf .index).length
  warningCount := o.warnings.length
  totalBytes := o.totalBytes

/-- Fills a text up with blanks to a number of characters. -/
def pad (width : Nat) (text : String) : String :=
  text ++ String.ofList (List.replicate (width - text.toList.length) ' ')

/-- The nearest whole number to a quotient; of two equally near ones the even one. -/
def roundedQuotient (numerator denominator : Nat) : Nat :=
  let below := numerator / denominator
  let twiceRest := 2 * (numerator % denominator)
  if twiceRest < denominator then below
  else if denominator < twiceRest then below + 1
  else if below % 2 = 0 then below else below + 1

/-- A size as the summary shows it. -/
def sizeText (bytes : Nat) : String :=
  if bytes < 1024 then toString bytes ++ " B"
  else
    let tenths := roundedQuotient (10 * bytes) 1024
    toString (tenths / 10) ++ "." ++ toString (tenths % 10) ++ " KB"

/-- A run of the double line that frames the box. -/
def bar : String :=
  String.ofList (List.replicate 50 '═')

/-- A line of the box with a label and a value. -/
def row (label value : String) : String :=
  "║  " ++ label ++ pad 35 value ++ "║\n"

def title (s : Summary) : String :=
  if s.dryRun then "Dry Run Complete (nothing written)" else "Code Generation Complete"

/-- The box. -/
def display (s : Summary) : String :=
  String.join [
    "╔" ++ bar ++ "╗\n",
    "║  " ++ pad 48 s.title ++ "║\n",
    "╠" ++ bar ++ "╣\n",
    row "Output:      " s.outputDir.text,
    row "Total Files: " (toString s.totalFiles),
    row "  Enums:     " (toString s.enumFiles),
    row "  Entities:  " (toString s.entityFiles),
    row "  DTOs:      " (toString s.dtoFiles),
    row "  Services:  " (toString s.serviceFiles),
    row "  Indexes:   " (toString s.indexFiles),
    row "Warnings:    " (toString s.warningCount),
    row "Total Size:  " (sizeText s.totalBytes),
    "╚" ++ bar ++ "╝\n"]

end Summary

end Scaffold
