import M65832Tb.Extract.Directive
import M65832Tb.Extract.Parse
import M65832Tb.Extract.Segment
import M65832Tb.Extract.Conservation
import M65832Tb.Extract.Script
import M65832Tb.Extract.Steps
import M65832Tb.Extract.Memory
import M65832Tb.Extract.Verify
import M65832Tb.Extract.Dump
import M65832Tb.Convert.Program
import M65832Tb.Convert.Splice
import M65832Tb.Convert.Relocate
import M65832Tb.Text.Pattern
import M65832Tb.Text.Scan
import M65832Tb.Text.Flank
import M65832Tb.Convert.Text
import M65832Tb.Convert.File
import M65832Tb.Extract.Text
import M65832Tb.Extract.Size
import M65832Tb.Testbench
import M65832Tb.Extract.Main
