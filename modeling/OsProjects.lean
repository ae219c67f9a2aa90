import OsProjects.Paging.PartOne.Protection
import OsProjects.Paging.PartOne.Exhausted
import OsProjects.Paging.PartTwo.Contract
import OsProjects.Paging.PartTwo.Overflow
import OsProjects.Paging.PartTwo.Transparency
import OsProjects.Paging.PartTwo.Remapping
import OsProjects.Paging.Agreement
import OsProjects.Paging.CommandLoop
import OsProjects.Pvn.Peace
import OsProjects.Pvn.Statistics
import OsProjects.Pvn.Deadlock
import OsProjects.Pvn.SwapRule
import OsProjects.Pvn.Bill
import OsProjects.Drivers.Order
import OsProjects.Drivers.Progress
import OsProjects.Drivers.Announcements
import OsProjects.Mc2.Listing
import OsProjects.Mc2.Reaping
import OsProjects.Mc2.Starting
import OsProjects.Mc2.Arguments
import OsProjects.Mc2.Elapsed
import OsProjects.Interceptor.Search
import OsProjects.Interceptor.Ancestry
import OsProjects.Drivers.Emptying
import OsProjects.Pvn.Closing
import OsProjects.Interceptor.Loading
import OsProjects.Interceptor.Table
import OsProjects.Interceptor.Unloading
import OsProjects.Interceptor.Transparency
import OsProjects.Interceptor.Scan
import OsProjects.Mc2.Reporting
import OsProjects.Mc2.Leaving
import OsProjects.Mc1.Nesting
import OsProjects.Paging.PartTwo.Account
import OsProjects.Lib.Text
import OsProjects.Paging.Script
