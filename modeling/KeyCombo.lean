import KeyCombo.Main
import KeyCombo.Reader.Step
import KeyCombo.Combo.Step
import KeyCombo.Proofs.Except
import KeyCombo.Proofs.LongestMatch
import KeyCombo.Proofs.Scanning
import KeyCombo.Proofs.Grammar
import KeyCombo.Proofs.Numerals
import KeyCombo.Proofs.ScanAppend
import KeyCombo.Proofs.RoundTrip
import KeyCombo.Proofs.ComboClasses
import KeyCombo.Proofs.Lookup
import KeyCombo.Proofs.NaiveExtraction
import KeyCombo.Proofs.ExtractionFaults
import KeyCombo.Proofs.Lexemes
import KeyCombo.Proofs.Placeless
import KeyCombo.Proofs.Cursor
import KeyCombo.Proofs.Respacing
import KeyCombo.Proofs.EarliestError
import KeyCombo.Proofs.HomeRowPositions
import KeyCombo.Proofs.ListingLines
import KeyCombo.Proofs.StageOrder
import KeyCombo.Proofs.FirstOccurrences
import KeyCombo.Proofs.Selection
import KeyCombo.Proofs.RepeatedPositions
import KeyCombo.Proofs.EntriesInUse
import KeyCombo.Proofs.Renaming
import KeyCombo.Proofs.Positions
import KeyCombo.Proofs.Concatenation
import KeyCombo.Proofs.Renumbering
import KeyCombo.Proofs.TermStream
import KeyCombo.Proofs.SetHistory
import KeyCombo.Proofs.BoundedNumerals
import KeyCombo.Proofs.Trimming
import KeyCombo.Proofs.HomeRowFormat
import KeyCombo.Proofs.HomeRowWriting
import KeyCombo.Proofs.HomeRowFaults
import KeyCombo.Proofs.SourceTerms
import KeyCombo.Proofs.SpineEdits
import KeyCombo.Proofs.IntegerLiterals
import KeyCombo.Proofs.CommandLines
import KeyCombo.Proofs.Reports
